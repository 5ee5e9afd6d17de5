import LineEditor.Proofs.Session.Reachable
import LineEditor.Proofs.Session.Scene
import Mathlib.Data.List.Induction

/-!
# Nested sessions

Each session saves for itself alone, so the saved receivers are right only while sessions come off a
connection in the opposite order. In a run whose shifts are in that order (`Shift.InOrder`) the
sessions on a connection form a stack, `Shift.installedOn`. The invariant is `Scene.Nested`: the
topmost session receives, and each session has saved whom the sessions below it would leave to
receive.

So `Pristine.nesting`: what is typed reaches the topmost session, and a session that is taken off
leaves the receivers that it found.
-/

namespace LineEditor

variable {κ ν : Type}

/-! ### Stacks -/

namespace Shift

/-- The sessions on a connection after a shift, the latest first. -/
def stack (c : ConnectionId) (sessions : List SessionId) : Shift → List SessionId
  | .installed s d => if d = c then s :: sessions else sessions
  | .uninstalled s d => if d = c then sessions.erase s else sessions
  | .listened _ _ | .released _ => sessions

/-- The receivers that a connection has of its own after a shift. -/
def own (c : ConnectionId) (receivers : ReceiverPair) : Shift → ReceiverPair
  | .listened d label => if d = c then (some (.owner label), some (.owner label)) else receivers
  | .installed _ _ | .uninstalled _ _ | .released _ => receivers

/-- The sessions that are on a connection, the latest first. -/
def installedOn (c : ConnectionId) (past : List Shift) : List SessionId := past.foldl (stack c) []

/-- The receivers that a connection has of its own: those that it had at first, until its owner
listens. -/
def ownReceivers (c : ConnectionId) (first : ReceiverPair) (past : List Shift) : ReceiverPair :=
  past.foldl (own c) first

/-- What a shift must keep to. The session that comes off was put on last, of those that are on its
connection. The owner listens only where no session is, and no session is given up that is on a
connection. -/
def Orderly (past : List Shift) : Shift → Prop
  | .installed _ _ => True
  | .uninstalled s c => (installedOn c past).head? = some s
  | .listened c _ => installedOn c past = []
  | .released s => ∀ c, s ∉ installedOn c past

/-- All shifts keep to the order. -/
def InOrder (past : List Shift) : List Shift → Prop
  | [] => True
  | shift :: rest => shift.Orderly past ∧ InOrder (past ++ [shift]) rest

variable {past : List Shift} {s : SessionId} {c : ConnectionId} {first : ReceiverPair}

@[simp]
theorem installedOn_concat (c : ConnectionId) (past : List Shift) (shift : Shift) :
    installedOn c (past ++ [shift]) = shift.stack c (installedOn c past) :=
  List.foldl_append

@[simp]
theorem ownReceivers_concat (c : ConnectionId) (first : ReceiverPair) (past : List Shift)
    (shift : Shift) :
    ownReceivers c first (past ++ [shift]) = shift.own c (ownReceivers c first past) :=
  List.foldl_append

theorem inOrder_append {before rest : List Shift} :
    InOrder past (before ++ rest) ↔ InOrder past before ∧ InOrder (past ++ before) rest := by
  induction before generalizing past with
  | nil => simp [InOrder]
  | cons shift before ih => simp [InOrder, ih, and_assoc]

/-- A session that is on a connection and has not just been put there was there before, and has not
come off. -/
theorem mem_of_mem_stack {shift : Shift} {sessions : List SessionId} (hnodup : sessions.Nodup)
    (hinstall : shift ≠ .installed s c) (hs : s ∈ shift.stack c sessions) :
    s ∈ sessions ∧ shift ≠ .uninstalled s c := by
  cases shift with
  | installed t d =>
    refine ⟨?_, nofun⟩
    rw [stack] at hs
    split at hs
    next hdc =>
      refine (List.mem_cons.1 hs).resolve_left fun hst => hinstall ?_
      rw [hst, hdc]
    next => exact hs
  | uninstalled t d =>
    rw [stack] at hs
    split at hs
    next hdc =>
      have hmem := (hnodup.mem_erase_iff).1 hs
      refine ⟨hmem.2, fun heq => hmem.1 ?_⟩
      cases heq
      rfl
    next hdc =>
      refine ⟨hs, fun heq => hdc ?_⟩
      cases heq
      rfl
  | listened d label | released t => exact ⟨hs, nofun⟩

/-- What is below a session on a connection stays as long as the session is there, and so do the
receivers that the connection has of its own. -/
theorem exists_above (first : ReceiverPair) {above base : List SessionId} {rest : List Shift}
    (hpast : installedOn c past = above ++ s :: base) (habove : s ∉ above)
    (horder : InOrder past rest)
    (hrest : ∀ shift ∈ rest, shift ≠ .installed s c ∧ shift ≠ .uninstalled s c) :
    ∃ above', installedOn c (past ++ rest) = above' ++ s :: base ∧ s ∉ above' ∧
      ownReceivers c first (past ++ rest) = ownReceivers c first past := by
  induction rest generalizing past above with
  | nil => exact ⟨above, by rw [List.append_nil, hpast], habove, by rw [List.append_nil]⟩
  | cons shift rest ih =>
    obtain ⟨hshift, horder⟩ := horder
    obtain ⟨hother, hrest⟩ := List.forall_mem_cons.1 hrest
    have hstep : ∃ above', shift.stack c (above ++ s :: base) = above' ++ s :: base ∧ s ∉ above' ∧
        shift.own c (ownReceivers c first past) = ownReceivers c first past := by
      cases shift with
      | installed t d =>
        by_cases hdc : d = c
        · subst hdc
          have hts : t ≠ s := fun hts => hother.1 (hts ▸ rfl)
          refine ⟨t :: above, if_pos rfl, ?_, rfl⟩
          exact List.not_mem_cons_of_ne_of_not_mem (Ne.symm hts) habove
        · exact ⟨above, if_neg hdc, habove, rfl⟩
      | uninstalled t d =>
        by_cases hdc : d = c
        · subst hdc
          have hhead : (above ++ s :: base).head? = some t := hpast ▸ hshift
          cases above with
          | nil =>
            obtain rfl := Option.some_inj.1 hhead
            exact absurd rfl hother.2
          | cons u above =>
            obtain rfl := Option.some_inj.1 hhead
            refine ⟨above, ?_, fun hs => habove (List.mem_cons_of_mem _ hs), rfl⟩
            exact (if_pos rfl).trans (List.erase_cons_head ..)
        · exact ⟨above, if_neg hdc, habove, rfl⟩
      | listened d label =>
        have hdc : d ≠ c := by
          rintro rfl
          have hempty : installedOn d past = [] := hshift
          rw [hempty] at hpast
          exact List.cons_ne_nil _ _ (List.append_eq_nil_iff.1 hpast.symm).2
        exact ⟨above, rfl, habove, if_neg hdc⟩
      | released t => exact ⟨above, rfl, habove, rfl⟩
    obtain ⟨above', hstack, habove', hown⟩ := hstep
    rw [← hpast, ← installedOn_concat] at hstack
    obtain ⟨above'', hstack', habove'', hown'⟩ := ih hstack habove' horder hrest
    rw [List.append_cons]
    exact ⟨above'', hstack', habove'', hown'.trans ((ownReceivers_concat ..).trans hown)⟩

/-- **Stacks.** When a session comes off in order, the sessions that were on its connection before
are there again, and so are the receivers that the connection had of its own. -/
theorem installedOn_uninstalled (first : ReceiverPair) {before between : List Shift}
    (horder : InOrder [] (before ++ .installed s c :: between ++ [.uninstalled s c]))
    (hbetween : ∀ shift ∈ between, shift ≠ .installed s c ∧ shift ≠ .uninstalled s c) :
    installedOn c (before ++ .installed s c :: between ++ [.uninstalled s c]) =
        installedOn c before ∧
      ownReceivers c first (before ++ .installed s c :: between ++ [.uninstalled s c]) =
        ownReceivers c first before := by
  obtain ⟨hinstall, hlast, -⟩ := inOrder_append.1 horder
  obtain ⟨-, -, hmiddle⟩ := inOrder_append.1 hinstall
  have hpushed : installedOn c (before ++ [.installed s c]) = [] ++ s :: installedOn c before :=
    (installedOn_concat ..).trans (if_pos rfl)
  obtain ⟨above, hstack, habove, hown⟩ :=
    exists_above first hpushed List.not_mem_nil hmiddle hbetween
  rw [← List.append_cons] at hstack hown
  have hhead : (above ++ s :: installedOn c before).head? = some s := hstack ▸ hlast
  have hnil : above = [] := by
    cases above with
    | nil => rfl
    | cons u above => exact absurd (Option.some_inj.1 hhead ▸ List.mem_cons_self) habove
  subst hnil
  constructor
  · rw [installedOn_concat, hstack]
    exact (if_pos rfl).trans (List.erase_cons_head ..)
  · rw [ownReceivers_concat]
    exact hown.trans (ownReceivers_concat ..)

end Shift

/-- Whom a connection hands things to that has some receivers of its own and some sessions on it. -/
def inFront (own : ReceiverPair) : List SessionId → ReceiverPair
  | [] => own
  | s :: _ => (some (.session s), some (.session s))

/-- What is below session `s` on a stack. -/
def below (s : SessionId) (sessions : List SessionId) : List SessionId :=
  (sessions.dropWhile (· ≠ s)).tail

@[simp]
theorem below_cons_self (s : SessionId) (sessions : List SessionId) :
    below s (s :: sessions) = sessions := by
  simp [below]

theorem below_cons_of_ne {s t : SessionId} (h : t ≠ s) (sessions : List SessionId) :
    below s (t :: sessions) = below s sessions := by
  simp [below, h]

namespace Scene

open Shift

/-- The sessions on each connection are nested: the topmost receives, and each has saved whom the
sessions below it leave to receive. `first` are the receivers at first. -/
structure Nested (scene : Scene) (first : ConnectionId → ReceiverPair) (past : List Shift) :
    Prop where
  receivers : ∀ c, (scene.receivers? c).getD (none, none) =
    inFront (ownReceivers c (first c) past) (installedOn c past)
  saved : ∀ s place c, scene.place? s = some place → place.connection? = some c →
    s ∈ installedOn c past ∧
      place.saved = inFront (ownReceivers c (first c) past) (below s (installedOn c past))
  standing : ∀ c, ∀ s ∈ installedOn c past, ∃ place,
    scene.place? s = some place ∧ place.connection? = some c ∧ place.released = false
  nodup : ∀ c, (installedOn c past).Nodup

namespace Nested

variable {scene : Scene} {first : ConnectionId → ReceiverPair} {past : List Shift}
  {s : SessionId} {c d : ConnectionId} {place : Place}

/-- A session is on one connection only. -/
theorem connection_eq (h : scene.Nested first past) (hplace : scene.place? s = some place)
    (hs : s ∈ installedOn c past) : place.connection? = some c := by
  obtain ⟨place', hplace', hc, -⟩ := h.standing c s hs
  obtain rfl := Option.some_inj.1 (hplace.symm.trans hplace')
  exact hc

/-- A connection with a session on it exists. -/
theorem exists_receivers (h : scene.Nested first past) {rest : List SessionId}
    (hstack : installedOn c past = s :: rest) : ∃ receivers, scene.receivers? c = some receivers := by
  have hreceivers := h.receivers c
  rw [hstack] at hreceivers
  refine Option.ne_none_iff_exists'.1 fun hnone => ?_
  rw [hnone] at hreceivers
  cases hreceivers

theorem installed (h : scene.Nested first past) (hadmits : scene.Admits (.installed s d)) :
    (scene.after (.installed s d)).Nested first (past ++ [.installed s d]) := by
  obtain ⟨⟨place, hplace, hfree⟩, receivers, hreceivers⟩ := hadmits
  have hout : ∀ c, s ∉ installedOn c past := by
    intro c hs
    rw [h.connection_eq hplace hs] at hfree
    cases hfree
  have hown : ∀ c, ownReceivers c (first c) (past ++ [.installed s d]) =
      ownReceivers c (first c) past := fun c => ownReceivers_concat ..
  have hstack : ∀ c, installedOn c (past ++ [.installed s d]) =
      if d = c then s :: installedOn c past else installedOn c past := fun c =>
    installedOn_concat ..
  have hother : ∀ t, t ≠ s → (scene.after (.installed s d)).place? t = scene.place? t :=
    fun t hts => scene.place?_after_of_ne t fun hs => hts (Option.some_inj.1 hs).symm
  have haway : ∀ c, d ≠ c →
      (scene.after (.installed s d)).receivers? c = scene.receivers? c :=
    fun c hdc => scene.receivers?_after_of_ne c fun hd => hdc (Option.some_inj.1 hd)
  constructor
  case receivers =>
    intro c
    rw [hown, hstack]
    by_cases hdc : d = c
    · subst hdc
      rw [receivers?_after_installed, if_pos rfl]
      rfl
    · rw [haway c hdc, if_neg hdc]
      exact h.receivers c
  case saved =>
    intro t place' c ht hc
    rw [hown, hstack]
    by_cases hts : t = s
    · subst hts
      rw [place?_after_installed] at ht
      cases ht
      cases hc
      rw [if_pos rfl, below_cons_self]
      exact ⟨List.mem_cons_self, h.receivers _⟩
    · rw [hother t hts] at ht
      obtain ⟨hmem, hsaved⟩ := h.saved t place' c ht hc
      by_cases hdc : d = c
      · rw [if_pos hdc, below_cons_of_ne (Ne.symm hts)]
        exact ⟨List.mem_cons_of_mem _ hmem, hsaved⟩
      · rw [if_neg hdc]
        exact ⟨hmem, hsaved⟩
  case standing =>
    intro c t ht
    rw [hstack] at ht
    by_cases hts : t = s
    · subst hts
      have hdc : d = c := by
        by_contra hdc
        rw [if_neg hdc] at ht
        exact hout c ht
      exact ⟨_, place?_after_installed .., congrArg some hdc, rfl⟩
    · rw [hother t hts]
      refine h.standing c t ?_
      split at ht
      · exact (List.mem_cons.1 ht).resolve_left hts
      · exact ht
  case nodup =>
    intro c
    rw [hstack]
    split
    · exact List.nodup_cons.2 ⟨hout c, h.nodup c⟩
    · exact h.nodup c

theorem uninstalled (h : scene.Nested first past) (hadmits : scene.Admits (.uninstalled s d))
    (horder : Orderly past (.uninstalled s d)) :
    (scene.after (.uninstalled s d)).Nested first (past ++ [.uninstalled s d]) := by
  obtain ⟨place, hplace, hd⟩ := hadmits
  obtain ⟨rest, hrest⟩ := List.head?_eq_some_iff.1 horder
  have hown : ∀ c, ownReceivers c (first c) (past ++ [.uninstalled s d]) =
      ownReceivers c (first c) past := fun c => ownReceivers_concat ..
  have hstack : ∀ c, installedOn c (past ++ [.uninstalled s d]) =
      if d = c then rest else installedOn c past := by
    intro c
    rw [installedOn_concat, stack]
    split
    next hdc => rw [← hdc, hrest, List.erase_cons_head]
    next => rfl
  have hother : ∀ t, t ≠ s → (scene.after (.uninstalled s d)).place? t = scene.place? t :=
    fun t hts => scene.place?_after_of_ne t fun hs => hts (Option.some_inj.1 hs).symm
  have hnodup : s ∉ rest ∧ rest.Nodup := List.nodup_cons.1 (hrest ▸ h.nodup d)
  have haway : ∀ c, d ≠ c →
      (scene.after (.uninstalled s d)).receivers? c = scene.receivers? c :=
    fun c hdc => scene.receivers?_after_of_ne c fun hd => hdc (Option.some_inj.1 hd)
  constructor
  case receivers =>
    intro c
    rw [hown, hstack]
    by_cases hdc : d = c
    · subst hdc
      have hsaved := (h.saved s place d hplace hd).2
      rw [hrest, below_cons_self] at hsaved
      obtain ⟨receivers, hreceivers⟩ := h.exists_receivers hrest
      rw [receivers?_after_uninstalled, if_pos rfl, hplace, hreceivers]
      exact hsaved
    · rw [haway c hdc, if_neg hdc]
      exact h.receivers c
  case saved =>
    intro t place' c ht hc
    have hts : t ≠ s := by
      rintro rfl
      rw [place?_after_uninstalled] at ht
      cases ht
      cases hc
    rw [hother t hts] at ht
    obtain ⟨hmem, hsaved⟩ := h.saved t place' c ht hc
    rw [hown, hstack]
    by_cases hdc : d = c
    · subst hdc
      rw [hrest, below_cons_of_ne (Ne.symm hts)] at hsaved
      rw [hrest] at hmem
      rw [if_pos rfl]
      exact ⟨(List.mem_cons.1 hmem).resolve_left hts, hsaved⟩
    · rw [if_neg hdc]
      exact ⟨hmem, hsaved⟩
  case standing =>
    intro c t ht
    rw [hstack] at ht
    have hkept : t ≠ s ∧ t ∈ installedOn c past := by
      by_cases hdc : d = c
      · subst hdc
        rw [if_pos rfl] at ht
        rw [hrest]
        exact ⟨fun hts => hnodup.1 (hts ▸ ht), List.mem_cons_of_mem _ ht⟩
      · rw [if_neg hdc] at ht
        refine ⟨fun hts => hdc ?_, ht⟩
        subst hts
        exact Option.some_inj.1 (hd.symm.trans (h.connection_eq hplace ht))
    rw [hother t hkept.1]
    exact h.standing c t hkept.2
  case nodup =>
    intro c
    rw [hstack]
    split
    · exact hnodup.2
    · exact h.nodup c

theorem listened {label : List Char} (h : scene.Nested first past)
    (hadmits : scene.Admits (.listened d label)) (horder : Orderly past (.listened d label)) :
    (scene.after (.listened d label)).Nested first (past ++ [.listened d label]) := by
  obtain ⟨receivers, hreceivers⟩ := hadmits
  have hstack : ∀ c, installedOn c (past ++ [.listened d label]) = installedOn c past := fun c =>
    installedOn_concat ..
  have hempty : installedOn d past = [] := horder
  have hown : ∀ c, ownReceivers c (first c) (past ++ [.listened d label]) =
      if d = c then (some (.owner label), some (.owner label))
      else ownReceivers c (first c) past := fun c => ownReceivers_concat ..
  have haway : ∀ c, d ≠ c →
      (scene.after (.listened d label)).receivers? c = scene.receivers? c :=
    fun c hdc => scene.receivers?_after_of_ne c fun hd => hdc (Option.some_inj.1 hd)
  constructor
  case receivers =>
    intro c
    rw [hown, hstack]
    by_cases hdc : d = c
    · subst hdc
      rw [receivers?_after_listened, hreceivers, hempty, if_pos rfl]
      rfl
    · rw [haway c hdc, if_neg hdc]
      exact h.receivers c
  case saved =>
    intro t place c ht hc
    obtain ⟨hmem, hsaved⟩ := h.saved t place c ht hc
    have hdc : d ≠ c := by
      rintro rfl
      rw [hempty] at hmem
      cases hmem
    rw [hown, hstack, if_neg hdc]
    exact ⟨hmem, hsaved⟩
  case standing =>
    intro c t ht
    rw [hstack] at ht
    exact h.standing c t ht
  case nodup =>
    intro c
    rw [hstack]
    exact h.nodup c

theorem released (h : scene.Nested first past) (horder : Orderly past (.released s)) :
    (scene.after (.released s)).Nested first (past ++ [.released s]) := by
  have hout : ∀ c, s ∉ installedOn c past := horder
  have hstack : ∀ c, installedOn c (past ++ [.released s]) = installedOn c past := fun c =>
    installedOn_concat ..
  have hown : ∀ c, ownReceivers c (first c) (past ++ [.released s]) =
      ownReceivers c (first c) past := fun c => ownReceivers_concat ..
  have hother : ∀ t, t ≠ s → (scene.after (.released s)).place? t = scene.place? t :=
    fun t hts => scene.place?_after_of_ne t fun hs => hts (Option.some_inj.1 hs).symm
  constructor
  case receivers =>
    intro c
    rw [hown, hstack]
    exact h.receivers c
  case saved =>
    intro t place c ht hc
    rw [hown, hstack]
    by_cases hts : t = s
    · subst hts
      rw [place?_after_released] at ht
      obtain ⟨place, hplace, rfl⟩ := Option.map_eq_some_iff.1 ht
      exact absurd (h.saved t place c hplace hc).1 (hout c)
    · rw [hother t hts] at ht
      exact h.saved t place c ht hc
  case standing =>
    intro c t ht
    rw [hstack] at ht
    rw [hother t fun hts => hout c (hts ▸ ht)]
    exact h.standing c t ht
  case nodup =>
    intro c
    rw [hstack]
    exact h.nodup c

/-- **Step lemma.** Shifts that keep to the order keep the sessions nested. -/
theorem after {shift : Shift} (h : scene.Nested first past) (hadmits : scene.Admits shift)
    (horder : shift.Orderly past) : (scene.after shift).Nested first (past ++ [shift]) := by
  cases shift with
  | installed s c => exact h.installed hadmits
  | uninstalled s c => exact h.uninstalled hadmits horder
  | listened c label => exact h.listened hadmits horder
  | released s => exact h.released horder

end Nested

end Scene

namespace World

open Shift

variable {client : Client κ ν} {w : World κ ν} {s : SessionId} {c : ConnectionId}

/-! ### Runs -/

/-- The sessions that are on a connection after a run, the latest first. -/
def installedOn (w : World κ ν) (c : ConnectionId) (choices : List (Choice κ ν)) :
    List SessionId :=
  Shift.installedOn c (w.shifts choices)

/-- The receivers that a connection has of its own, without regard to sessions. -/
def ownReceivers (w : World κ ν) (c : ConnectionId) (choices : List (Choice κ ν)) :
    ReceiverPair :=
  Shift.ownReceivers c ((w.scene.receivers? c).getD (none, none)) (w.shifts choices)

theorem shifts_append (w : World κ ν) (earlier later : List (Choice κ ν)) :
    w.shifts (earlier ++ later) = w.shifts earlier ++ (w.play earlier).shifts later := by
  rw [shifts, stepped_append, List.filterMap_append]
  rfl

@[simp]
theorem shifts_step (w : World κ ν) (client : Client κ ν) (choices : List (Choice κ ν)) :
    w.shifts (.step client :: choices) = w.shift?.toList ++ (w.step client).shifts choices := by
  rw [shifts, stepped, List.filterMap_cons]
  cases w.shift? <;> rfl

/-- **Run lemma.** Along a run in order the sessions are nested. -/
theorem nested_play {first : ConnectionId → ReceiverPair} {past : List Shift}
    {choices : List (Choice κ ν)} (h : w.scene.Nested first past)
    (horder : InOrder past (w.shifts choices)) :
    (w.play choices).scene.Nested first (past ++ w.shifts choices) := by
  induction choices generalizing w past with
  | nil => simpa [shifts, stepped, play] using h
  | cons choice choices ih =>
    cases choice with
    | run p => exact ih (w := w.push (.run p)) h horder
    | step client =>
      have hscene := scene_step client w
      rw [shifts_step] at horder ⊢
      cases hshift : w.shift? with
      | none =>
        rw [hshift] at horder hscene
        exact ih (hscene ▸ h) horder
      | some shift =>
        rw [hshift] at horder hscene
        have hafter := h.after (admits_of_shift? hshift) horder.1
        have hnested := ih (hscene ▸ hafter) horder.2
        rwa [Option.toList_some, List.singleton_append, List.append_cons]

theorem Pristine.nested (h : Pristine w) :
    w.scene.Nested (fun c => (w.scene.receivers? c).getD (none, none)) [] where
  receivers _ := rfl
  saved s place c hplace hc := by
    obtain ⟨session, hs, rfl⟩ := Option.map_eq_some_iff.1 hplace
    have hnone := (h.idle session (List.mem_of_getElem? hs)).1
    cases hc.symm.trans hnone
  standing c s hs := by cases hs
  nodup _ := List.nodup_nil

theorem Pristine.nested_play (h : Pristine w) {choices : List (Choice κ ν)}
    (horder : InOrder [] (w.shifts choices)) :
    (w.play choices).scene.Nested (fun c => (w.scene.receivers? c).getD (none, none))
      (w.shifts choices) :=
  World.nested_play h.nested horder

/-- A session that is on a connection was put there, and nothing has come in between. -/
theorem Pristine.exists_install (h : Pristine w) {choices : List (Choice κ ν)}
    (horder : InOrder [] (w.shifts choices)) (hs : s ∈ w.installedOn c choices) :
    ∃ before client between, choices = before ++ .step client :: between ∧
      (w.play before).shift? = some (.installed s c) ∧
        ∀ shift ∈ ((w.play before).step client).shifts between,
          shift ≠ .installed s c ∧ shift ≠ .uninstalled s c := by
  induction choices using List.reverseRecOn with
  | nil => cases hs
  | append_singleton choices choice ih =>
    rw [shifts_append] at horder
    rw [installedOn, shifts_append] at hs
    have hbefore := (inOrder_append.1 horder).1
    -- what has been found before is still right if this move is neither of the two
    have hgoes : s ∈ w.installedOn c choices →
        (∀ shift ∈ (w.play choices).shifts [choice],
          shift ≠ .installed s c ∧ shift ≠ .uninstalled s c) →
        ∃ before client between, choices ++ [choice] = before ++ .step client :: between ∧
          (w.play before).shift? = some (.installed s c) ∧
            ∀ shift ∈ ((w.play before).step client).shifts between,
              shift ≠ .installed s c ∧ shift ≠ .uninstalled s c := by
      intro hs hlast
      obtain ⟨before, client, between, rfl, hinstall, hbetween⟩ := ih hbefore hs
      refine ⟨before, client, between ++ [choice], List.append_assoc .., hinstall, ?_⟩
      rw [shifts_append]
      refine List.forall_mem_append.2 ⟨hbetween, ?_⟩
      rwa [play_append] at hlast
    have hnone : (w.play choices).shifts [choice] = [] → _ := fun hnone =>
      hgoes (by rwa [hnone, List.append_nil] at hs) (hnone ▸ nofun)
    cases choice with
    | run p => exact hnone rfl
    | step client =>
      cases hshift : (w.play choices).shift? with
      | none => exact hnone (by rw [shifts_step, hshift]; rfl)
      | some shift =>
        have hlast : (w.play choices).shifts [.step client] = [shift] := by
          rw [shifts_step, hshift]
          rfl
        rw [hlast] at hgoes hs
        by_cases hinstall : shift = .installed s c
        · subst hinstall
          exact ⟨choices, client, [], rfl, hshift, nofun⟩
        have hkept : s ∈ w.installedOn c choices ∧ shift ≠ .uninstalled s c :=
          mem_of_mem_stack ((h.nested_play hbefore).nodup c) hinstall
            (by rwa [installedOn_concat] at hs)
        refine hgoes hkept.1 (List.forall_mem_singleton.2 ⟨hinstall, hkept.2⟩)

/-! ### Handing over -/

/-- Typing on a connection whose receiver is a session. -/
theorem step_type_session {text : List Char} {next : Answer → Program κ ν}
    {rest : List (Job κ ν)} (hagenda : w.agenda = .run (.call (.type c text) next) :: rest)
    (hinput : w.connections[c]?.bind Connection.input? = some (.session s))
    (hs : (w.session? s).isSome) :
    w.step client =
      (((({ w with agenda := rest } : World κ ν).reply next .done).changeSession s
        fun session => { session with decoder := session.decoder.append text }).push
          (.deliver s)) := by
  obtain ⟨session, hs⟩ := Option.isSome_iff_exists.1 hs
  have hfound : ({ w with agenda := rest } : World κ ν).session? s = some session := hs
  rw [step, hagenda]
  dsimp only [perform]
  rw [World.type, hinput]
  dsimp only
  rw [hfound]

/-- Typing on a connection whose owner listens. -/
theorem step_type_owner {text label : List Char} {next : Answer → Program κ ν}
    {rest : List (Job κ ν)} (hagenda : w.agenda = .run (.call (.type c text) next) :: rest)
    (hinput : w.connections[c]?.bind Connection.input? = some (.owner label)) :
    w.step client =
      (({ w with agenda := rest } : World κ ν).log (.ownerGot label text)).reply next .done := by
  rw [step, hagenda]
  dsimp only [perform]
  rw [World.type, hinput]

/-- A change of size of a connection that tells a session. -/
theorem step_resize_session {size : Size} {next : Answer → Program κ ν} {rest : List (Job κ ν)}
    {session : Session κ} (hagenda : w.agenda = .run (.call (.resize c size) next) :: rest)
    (hresize : w.connections[c]?.bind Connection.resize? = some (.session s))
    (hs : w.session? s = some session) :
    w.step client =
      let told := (({ w with agenda := rest } : World κ ν).reply next .done).changeSession s
        ({ · with size? := some size })
      session.onResize?.elim told fun handler =>
        (told.log (.resized s size)).push (.run (client.onResize handler size)) := by
  have hfound : ({ w with agenda := rest } : World κ ν).session? s = some session := hs
  rw [step, hagenda]
  dsimp only [perform]
  rw [World.resize, hresize]
  dsimp only
  rw [hfound]
  dsimp only
  cases session.onResize? <;> rfl

/-- A change of size of a connection whose owner listens. -/
theorem step_resize_owner {size : Size} {label : List Char} {next : Answer → Program κ ν}
    {rest : List (Job κ ν)} (hagenda : w.agenda = .run (.call (.resize c size) next) :: rest)
    (hresize : w.connections[c]?.bind Connection.resize? = some (.owner label)) :
    w.step client =
      (({ w with agenda := rest } : World κ ν).log (.ownerTold label size)).reply next .done := by
  rw [step, hagenda]
  dsimp only [perform]
  rw [World.resize, hresize]

/-! ### Nested sessions -/

/-- **Nested sessions** along a run. -/
structure Nesting (w : World κ ν) (choices : List (Choice κ ν)) : Prop where
  /-- The sessions that count as being on a connection are those that are installed there. -/
  stacked : ∀ earlier later s c, choices = earlier ++ later →
    (s ∈ w.installedOn c earlier ↔ ∃ session,
      (w.play earlier).sessions[s]? = some session ∧ session.connection? = some c)
  /-- The session that was put on a connection last, of those that are still there, gets what is
  typed and is told of changes of size. Where there is none, the connection's own receivers are. -/
  receives : ∀ earlier later c, choices = earlier ++ later →
    ((w.play earlier).connections[c]?.bind Connection.input?,
        (w.play earlier).connections[c]?.bind Connection.resize?) =
      inFront (w.ownReceivers c earlier) (w.installedOn c earlier)
  /-- What is typed is appended to the input of that session, which deals with it. Nothing else
  changes. -/
  typed : ∀ earlier client later c text next rest s below,
    choices = earlier ++ .step client :: later →
      (w.play earlier).agenda = .run (.call (.type c text) next) :: rest →
        w.installedOn c earlier = s :: below →
          (w.play earlier).step client =
            (((({ w.play earlier with agenda := rest } : World κ ν).reply next .done).changeSession s
              fun session => { session with decoder := session.decoder.append text }).push
                (.deliver s))
  /-- Without a session, what is typed gets to the owner that listens. -/
  typedAlone : ∀ earlier client later c text next rest label,
    choices = earlier ++ .step client :: later →
      (w.play earlier).agenda = .run (.call (.type c text) next) :: rest →
        w.installedOn c earlier = [] → (w.ownReceivers c earlier).1 = some (.owner label) →
          (w.play earlier).step client =
            (({ w.play earlier with agenda := rest } : World κ ν).log
              (.ownerGot label text)).reply next .done
  /-- A change of size is recorded by that session, whose handler then runs. Nothing else changes. -/
  resized : ∀ earlier client later c size next rest s below,
    choices = earlier ++ .step client :: later →
      (w.play earlier).agenda = .run (.call (.resize c size) next) :: rest →
        w.installedOn c earlier = s :: below → ∃ session,
          (w.play earlier).sessions[s]? = some session ∧ (w.play earlier).step client =
            let told := (({ w.play earlier with agenda := rest } : World κ ν).reply next
              .done).changeSession s ({ · with size? := some size })
            session.onResize?.elim told fun handler =>
              (told.log (.resized s size)).push (.run (client.onResize handler size))
  /-- Without a session, a change of size is told to the owner that listens. -/
  resizedAlone : ∀ earlier client later c size next rest label,
    choices = earlier ++ .step client :: later →
      (w.play earlier).agenda = .run (.call (.resize c size) next) :: rest →
        w.installedOn c earlier = [] → (w.ownReceivers c earlier).2 = some (.owner label) →
          (w.play earlier).step client =
            (({ w.play earlier with agenda := rest } : World κ ν).log
              (.ownerTold label size)).reply next .done
  /-- A session that is taken off a connection was put there before, last of all sessions' comings
  and goings, and the receivers are again those from right before that. -/
  restored : ∀ earlier client later s c, choices = earlier ++ .step client :: later →
    (w.play earlier).shift? = some (.uninstalled s c) →
      ∃ before client' between receivers, earlier = before ++ .step client' :: between ∧
        (w.play before).shift? = some (.installed s c) ∧
          (∀ shift ∈ ((w.play before).step client').shifts between,
            shift ≠ .installed s c ∧ shift ≠ .uninstalled s c) ∧
          (w.play before).scene.receivers? c = some receivers ∧
            ((w.play earlier).step client).scene.receivers? c = some receivers
  /-- Only sessions that are put on a connection or taken off it, and its owner, change its
  receivers. -/
  untouched : ∀ earlier client later c, choices = earlier ++ .step client :: later →
    (w.play earlier).shift?.bind Shift.connection? ≠ some c →
      ((w.play earlier).step client).scene.receivers? c = (w.play earlier).scene.receivers? c

/-- Where nothing is told apart from no receivers, the receivers of a scene are those of its world. -/
theorem getD_receivers? (w : World κ ν) (c : ConnectionId) :
    (w.scene.receivers? c).getD (none, none) =
      (w.connections[c]?.bind Connection.input?, w.connections[c]?.bind Connection.resize?) := by
  dsimp only [scene]
  cases w.connections[c]? <;> rfl

/-- **Sessions that come off in order restore the receivers**, along every run from a pristine
world. -/
theorem Pristine.nesting (h : Pristine w) {choices : List (Choice κ ν)}
    (horder : InOrder [] (w.shifts choices)) : Nesting w choices := by
  have hnested : ∀ earlier later, choices = earlier ++ later →
      (w.play earlier).scene.Nested (fun c => (w.scene.receivers? c).getD (none, none))
        (w.shifts earlier) := by
    rintro earlier later rfl
    rw [shifts_append] at horder
    exact h.nested_play (inOrder_append.1 horder).1
  have hreceives : ∀ earlier later c, choices = earlier ++ later →
      ((w.play earlier).connections[c]?.bind Connection.input?,
          (w.play earlier).connections[c]?.bind Connection.resize?) =
        inFront (w.ownReceivers c earlier) (w.installedOn c earlier) := by
    intro earlier later c hchoices
    rw [← getD_receivers?]
    exact (hnested earlier later hchoices).receivers c
  have hstanding : ∀ earlier later c s below, choices = earlier ++ later →
      w.installedOn c earlier = s :: below →
        ∃ session, (w.play earlier).session? s = some session := by
    intro earlier later c s below hchoices hstack
    have hmem : s ∈ w.installedOn c earlier := by
      rw [hstack]
      exact List.mem_cons_self
    obtain ⟨place, hplace, -, hkept⟩ := (hnested earlier later hchoices).standing c s hmem
    obtain ⟨session, hs, rfl⟩ := Option.map_eq_some_iff.1 hplace
    have hreleased : session.released = false := hkept
    exact ⟨session, by simp [session?, hs, hreleased, Option.filter]⟩
  constructor
  case stacked =>
    intro earlier later s c hchoices
    constructor
    · intro hs
      obtain ⟨place, hplace, hc, -⟩ := (hnested earlier later hchoices).standing c s hs
      obtain ⟨session, hs, rfl⟩ := Option.map_eq_some_iff.1 hplace
      exact ⟨session, hs, hc⟩
    · rintro ⟨session, hs, hc⟩
      have hplace : (w.play earlier).scene.place? s = some session.place :=
        congrArg (Option.map _) hs
      exact ((hnested earlier later hchoices).saved s _ c hplace hc).1
  case receives => exact hreceives
  case typed =>
    intro earlier client later c text next rest s below hchoices hagenda hstack
    have hreceiver := congrArg Prod.fst (hreceives earlier _ c hchoices)
    rw [hstack] at hreceiver
    obtain ⟨session, hs⟩ := hstanding earlier _ c s below hchoices hstack
    exact step_type_session hagenda hreceiver (Option.isSome_iff_exists.2 ⟨session, hs⟩)
  case typedAlone =>
    intro earlier client later c text next rest label hchoices hagenda hstack hown
    have hreceiver := congrArg Prod.fst (hreceives earlier _ c hchoices)
    rw [hstack] at hreceiver
    exact step_type_owner hagenda (hreceiver.trans hown)
  case resized =>
    intro earlier client later c size next rest s below hchoices hagenda hstack
    have hreceiver := congrArg Prod.snd (hreceives earlier _ c hchoices)
    rw [hstack] at hreceiver
    obtain ⟨session, hs⟩ := hstanding earlier _ c s below hchoices hstack
    exact ⟨session, (session?_eq_some hs).1, step_resize_session hagenda hreceiver hs⟩
  case resizedAlone =>
    intro earlier client later c size next rest label hchoices hagenda hstack hown
    have hreceiver := congrArg Prod.snd (hreceives earlier _ c hchoices)
    rw [hstack] at hreceiver
    exact step_resize_owner hagenda (hreceiver.trans hown)
  case restored =>
    intro earlier client later s c hchoices hshift
    have hearlier := hnested earlier _ hchoices
    have hafter := hnested (earlier ++ [.step client]) later (by rw [hchoices, List.append_cons])
    have hshifts : w.shifts (earlier ++ [.step client]) =
        w.shifts earlier ++ [.uninstalled s c] := by
      rw [shifts_append, shifts_step, hshift]
      rfl
    have hlast : InOrder [] (w.shifts earlier ++ [.uninstalled s c]) := by
      rw [hchoices, List.append_cons, shifts_append, hshifts] at horder
      exact (inOrder_append.1 horder).1
    have horderly : (w.installedOn c earlier).head? = some s := (inOrder_append.1 hlast).2.1
    obtain ⟨rest, hstack⟩ := List.head?_eq_some_iff.1 horderly
    have hmem : s ∈ w.installedOn c earlier := List.mem_of_mem_head? horderly
    -- the session was put there, and the stack below it is the one from then
    obtain ⟨before, client', between, hbefore, hinstall, hbetween⟩ :=
      h.exists_install (inOrder_append.1 hlast).1 hmem
    have hsplit : w.shifts earlier =
        w.shifts before ++ .installed s c :: ((w.play before).step client').shifts between := by
      rw [hbefore, shifts_append, shifts_step, hinstall]
      rfl
    rw [hsplit] at hlast
    obtain ⟨hbelow, hown⟩ := installedOn_uninstalled
      ((w.scene.receivers? c).getD (none, none)) hlast hbetween
    have hsame : (((w.play earlier).step client).scene.receivers? c).getD (none, none) =
        ((w.play before).scene.receivers? c).getD (none, none) := by
      have hfirst := (hnested before (.step client' :: between ++ .step client :: later)
        (by rw [hchoices, hbefore, List.append_assoc])).receivers c
      have hlater := hafter.receivers c
      rw [hshifts, hsplit, hbelow, hown, play_concat] at hlater
      exact hlater.trans hfirst.symm
    obtain ⟨-, receivers, hreceivers⟩ := admits_of_shift? hinstall
    obtain ⟨receivers', hreceivers'⟩ := hearlier.exists_receivers hstack
    refine ⟨before, client', between, receivers, hbefore, hinstall, hbetween, hreceivers, ?_⟩
    rw [scene_step, hshift, Option.elim_some, Scene.receivers?_after_uninstalled,
      hreceivers'] at hsame ⊢
    rw [hreceivers] at hsame
    exact congrArg some hsame
  case untouched =>
    intro earlier client later c _ hother
    rw [scene_step]
    cases hshift : (w.play earlier).shift? with
    | none => rfl
    | some shift =>
      rw [hshift] at hother
      exact Scene.receivers?_after_of_ne _ c hother

/-- A client whose handlers do nothing. -/
private def stillClient : Client Unit Unit where
  onLine _ _ := .done
  onComplete _ _ _ := .done
  onRead _ _ := .done
  onResize _ _ := .done

/-- Two sessions and two connections. -/
private def twoOfEach : World Unit Unit := { sessions := [{}, {}], connections := [{}, {}] }

/-- One session is put on top of the other and taken off again, and then the other one is moved to
the second connection. -/
private def movedOver : List (Choice Unit Unit) :=
  .run (.andThen (.listen 0 ['o']) <|
    .andThen (.install 0 0) <|
      .andThen (.install 1 0) <|
        .andThen (.install 1 1) <|
          .andThen (.uninstall 1) <|
            .andThen (.uninstall 0) <|
              .andThen (.type 0 ['a']) <|
                .andThen (.install 0 1) (.ofCall (.uninstall 0))) ::
    List.replicate 10 (.step stillClient)

/-- The owner of the first connection listens again, and nobody ever listened on the second. -/
theorem nesting_movedOver :
    (Pristine twoOfEach ∧ InOrder [] (twoOfEach.shifts movedOver)) ∧
      (twoOfEach.shifts movedOver =
          [.listened 0 ['o'], .installed 0 0, .installed 1 0, .uninstalled 1 0, .uninstalled 0 0,
            .installed 0 1, .uninstalled 0 1] ∧
        (twoOfEach.play movedOver).scene.receivers? 0 =
            some (some (.owner ['o']), some (.owner ['o'])) ∧
          (twoOfEach.play movedOver).scene.receivers? 1 = some (none, none)) ∧
      Nesting twoOfEach movedOver := by
  have hpristine : Pristine twoOfEach := by constructor <;> simp [twoOfEach]
  have hshifts : twoOfEach.shifts movedOver =
      [.listened 0 ['o'], .installed 0 0, .installed 1 0, .uninstalled 1 0, .uninstalled 0 0,
        .installed 0 1, .uninstalled 0 1] := by decide
  have horder : InOrder [] (twoOfEach.shifts movedOver) := by
    rw [hshifts]
    exact ⟨rfl, trivial, trivial, rfl, rfl, trivial, rfl, trivial⟩
  exact ⟨⟨hpristine, horder⟩, ⟨hshifts, by decide, by decide⟩, hpristine.nesting horder⟩

end World

end LineEditor
