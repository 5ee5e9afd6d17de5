import LineEditor.Proofs.Application.Transcript

/-!
# Endings are final

The program comes to its end in three ways: a line is evaluated to the end of the shell, the input
ends, or it holds an interrupt. After a line has been the end of the shell, nothing that is typed is
shown, evaluated or asked for, although messages may still wait in every order behind the one that
completed the line (`FinalEndings.exit`). A block with an interrupt is as good as the end of the
input before it, whatever it and the later blocks hold (`FinalEndings.interrupt`).

Both hold of the transcript, in which the program reads the next block when no message waits, and of
every other order in which a `Process` can come to its end; and whatever has happened, the end can
be reached (`FinalEndings.ends`).
-/

namespace LineEditor.Application

open Process (Reachable)
open Relation (ReflTransGen)

/-! ### Blocks and interrupts -/

section Blocks

variable {front rest : List (List UInt8)} {block : List UInt8}

/-- Nothing is typed from the first interrupt on. -/
theorem heard_append (hcalm : ∀ earlier ∈ front, Running.interrupt ∉ earlier)
    (hinterrupt : Running.interrupt ∈ block) :
    heard (front ++ block :: rest) = front.flatten := by
  induction front with
  | nil =>
    refine heard_of_stops ?_
    rintro _ ⟨⟩
    exact hinterrupt
  | cons earlier front ih =>
    obtain ⟨hearlier, hfront⟩ := List.forall_mem_cons.1 hcalm
    rw [List.cons_append, heard_cons hearlier, ih hfront, List.flatten_cons]

theorem heard_blocks {input : List UInt8} (hcalm : Running.interrupt ∉ input) :
    heard (blocks input) = input := by
  rw [← flatten_blocks input] at hcalm
  rw [heard_of_calm hcalm, flatten_blocks]

/-- The first blocks are those of the first bytes. -/
theorem blocks_take (input : List UInt8) (k : Nat) :
    blocks (input.take (Running.blockSize * k)) = (blocks input).take k := by
  induction k generalizing input with
  | zero =>
    rw [Nat.mul_zero, List.take_zero, List.take_zero, blocks]
  | succ k ih =>
    have hsize : Running.blockSize * (k + 1) =
        Running.blockSize - 1 + Running.blockSize * k + 1 := by
      rw [Running.blockSize]
      omega
    cases input with
    | nil => rw [List.take_nil, blocks, List.take_nil]
    | cons byte rest =>
      have hfirst : (rest.take (Running.blockSize - 1 + Running.blockSize * k)).take
          (Running.blockSize - 1) = rest.take (Running.blockSize - 1) := by
        rw [List.take_take, Nat.min_eq_left (Nat.le_add_right _ _)]
      have hrest : (rest.take (Running.blockSize - 1 + Running.blockSize * k)).drop
          (Running.blockSize - 1) =
            (rest.drop (Running.blockSize - 1)).take (Running.blockSize * k) := by
        rw [List.drop_take, Nat.add_sub_cancel_left]
      rw [hsize, List.take_succ_cons, blocks, hfirst, hrest, ih, blocks, List.take_succ_cons]

/-- A full block is taken as it is. -/
theorem blocks_append (hlength : block.length = Running.blockSize) (input : List UInt8) :
    blocks (block ++ input) = block :: blocks input := by
  cases block with
  | nil => cases hlength
  | cons byte block =>
    have hrest : block.length = Running.blockSize - 1 := Nat.eq_sub_of_add_eq hlength
    rw [List.cons_append, blocks, List.take_left' hrest, List.drop_left' hrest]

theorem flatten_take_blocks (input : List UInt8) (k : Nat) :
    ((blocks input).take k).flatten = input.take (Running.blockSize * k) := by
  rw [← blocks_take, flatten_blocks]

/-- A block with an interrupt is as good as the end of the input. -/
theorem sitting_append (settings : Settings) (prompt : List Char)
    (hcalm : ∀ earlier ∈ front, Running.interrupt ∉ earlier)
    (hinterrupt : Running.interrupt ∈ block) :
    sitting settings prompt (front ++ block :: rest) =
      sitting settings prompt (blocks front.flatten) := by
  have hquiet : Running.interrupt ∉ front.flatten := by
    intro hmem
    obtain ⟨earlier, hearlier, hin⟩ := List.mem_flatten.1 hmem
    exact hcalm earlier hearlier hin
  unfold sitting typed
  rw [heard_append hcalm hinterrupt, heard_blocks hquiet]

end Blocks

/-! ### Endings -/

/-- The shell evaluates a line to its end when it is given these bytes. -/
def Exits (settings : Settings) (prompt : List Char) (input : List UInt8) : Prop :=
  ∃ e ∈ (Desk.of settings prompt).evaluated
      ((Desk.opening settings prompt).append (typed (blocks input))),
    Shell.evaluate e.1 e.2 = .exit

/-- The endings of the program are final. -/
structure FinalEndings (settings : Settings) (prompt : List Char) : Prop where
  /-- Whatever blocks the input comes in, and whatever has happened, the program can come to its
  end. -/
  ends : ∀ {size? cut p}, Reachable settings prompt size? cut p →
    ∃ p', ReflTransGen Process.Moves p p' ∧ p'.left = true
  /-- At the end of its input the program has come to its end, and has not failed. -/
  closes : ∀ size? input, ∃ output,
    transcript? settings prompt size? input true = some { exitCode := 0, output }
  /-- Before the end of its input, and without an interrupt, the program quits exactly when a line
  is evaluated to the end of the shell. -/
  quits : ∀ {input : List UInt8}, Running.interrupt ∉ input → ∀ size?,
    (((blocks input).foldl Running.receive (Running.start settings prompt size?)).quit = true ↔
      Exits settings prompt input)
  /-- After the end of the shell, nothing makes a difference to what the program comes to. -/
  exit : ∀ {first more : List UInt8}, Running.interrupt ∉ first → Running.interrupt ∉ more →
    Exits settings prompt first → ∃ output, ∀ size? ends,
      transcript? settings prompt size? first ends = some { exitCode := 0, output } ∧
        transcript? settings prompt size? (first ++ more) ends = some { exitCode := 0, output }
  /-- Nor do the blocks in which the input comes, or the order of events. -/
  exit_process : ∀ {first more : List UInt8}, Running.interrupt ∉ first →
    Running.interrupt ∉ more → Exits settings prompt first →
      ∀ {size? cut p}, cut.flatten = first ++ more → Reachable settings prompt size? cut p →
        p.left = true → ∀ size? ends,
          p.running.leave? = transcript? settings prompt size? first ends
  /-- The first block with an interrupt is as good as the end of the input before it. -/
  interrupt : ∀ {input : List UInt8} {k : Nat} {block : List UInt8},
    (blocks input)[k]? = some block → Running.interrupt ∈ block →
      (∀ earlier ∈ (blocks input).take k, Running.interrupt ∉ earlier) → ∃ output, ∀ size? ends,
        transcript? settings prompt size? input ends = some { exitCode := 0, output } ∧
          transcript? settings prompt size? (input.take (Running.blockSize * k)) true =
            some { exitCode := 0, output }
  /-- So it is in whatever blocks the input comes, and in every order of events. -/
  interrupt_process : ∀ {front rest : List (List UInt8)} {block : List UInt8},
    (∀ earlier ∈ front, Running.interrupt ∉ earlier) → Running.interrupt ∈ block →
      ∀ {size? p}, Reachable settings prompt size? (front ++ block :: rest) p → p.left = true →
        ∀ size?, p.running.leave? = transcript? settings prompt size? front.flatten true

/-- The shell has come to its end in the sitting exactly when a line has been evaluated to it. -/
theorem isOver_sitting (settings : Settings) (prompt : List Char) (input : List UInt8) :
    (sitting settings prompt (blocks input)).IsOver ↔ Exits settings prompt input := by
  have hlive : ¬ ((Desk.opening settings prompt).append (typed (blocks input))).IsOver := nofun
  exact (Desk.isOver_drain ..).trans (or_iff_right hlive)

/-- After the end of the shell it remains at its end, and what is typed is not shown. -/
theorem sitting_of_exits {settings : Settings} {prompt : List Char} {first more : List UInt8}
    (hfirst : Running.interrupt ∉ first) (hmore : Running.interrupt ∉ more)
    (hexits : Exits settings prompt first) {cut : List (List UInt8)}
    (hcut : cut.flatten = first ++ more) :
    (sitting settings prompt cut).IsOver ∧
      (sitting settings prompt cut).output = (sitting settings prompt (blocks first)).output := by
  have hover := (isOver_sitting settings prompt first).2 hexits
  have hcalm : Running.interrupt ∉ cut.flatten := by
    rw [hcut, List.mem_append, not_or]
    exact ⟨hfirst, hmore⟩
  have htyped : typed cut = typed (blocks first) ++
      (Utf8.decode (Utf8.decode none first).1 more).2 := by
    unfold typed
    rw [heard_of_calm hcalm, hcut, heard_blocks hfirst, Utf8.decode_append]
  have hsitting : sitting settings prompt cut =
      (Desk.of settings prompt).type (sitting settings prompt (blocks first))
        (Utf8.decode (Utf8.decode none first).1 more).2 := by
    unfold sitting
    rw [htyped, Desk.type_type]
  rw [hsitting, Desk.type_of_over hover]
  exact ⟨hover, rfl⟩

/-- **Endings are final.** -/
theorem endings_final (settings : Settings) (prompt : List Char) :
    FinalEndings settings prompt where
  ends hreachable := hreachable.exists_left
  closes size? _ := ⟨_, transcript?_eq_some size? (.inl rfl)⟩
  quits hcalm size? := by
    rw [quit_foldl_iff, or_iff_right hcalm, isOver_sitting]
  exit {first more} hfirst hmore hexits := by
    have hover := (isOver_sitting settings prompt first).2 hexits
    obtain ⟨hstill, houtput⟩ :=
      sitting_of_exits hfirst hmore hexits (flatten_blocks (first ++ more))
    refine ⟨(sitting settings prompt (blocks first)).output ++ newRow, fun size? ends => ⟨?_, ?_⟩⟩
    · exact transcript?_eq_some size? (.inr (.inr hover))
    · rw [← houtput]
      exact transcript?_eq_some size? (.inr (.inr hstill))
  exit_process {first more} hfirst hmore hexits _ _ _ hcut hreachable hleft size? ends := by
    have hover := (isOver_sitting settings prompt first).2 hexits
    obtain ⟨-, houtput⟩ := sitting_of_exits hfirst hmore hexits hcut
    rw [hreachable.leave?_of_left hleft, houtput]
    exact (transcript?_eq_some size? (.inr (.inr hover))).symm
  interrupt {input k block} hblock hinterrupt hcalm := by
    obtain ⟨hlt, heq⟩ := List.getElem?_eq_some_iff.1 hblock
    have hsplit : (blocks input).take k ++ block :: (blocks input).drop (k + 1) = blocks input := by
      rw [← heq, ← List.drop_eq_getElem_cons hlt, List.take_append_drop]
    have hsame : sitting settings prompt (blocks input) =
        sitting settings prompt (blocks (input.take (Running.blockSize * k))) := by
      rw [← flatten_take_blocks, ← sitting_append settings prompt hcalm hinterrupt, hsplit]
    have hin : Running.interrupt ∈ input := by
      rw [← flatten_blocks input]
      exact List.mem_flatten_of_mem (List.mem_of_getElem? hblock) hinterrupt
    refine ⟨(sitting settings prompt (blocks input)).output ++ newRow, fun size? ends => ⟨?_, ?_⟩⟩
    · exact transcript?_eq_some size? (.inr (.inl hin))
    · rw [hsame]
      exact transcript?_eq_some size? (.inl rfl)
  interrupt_process {front _ _} hcalm hinterrupt _ _ hreachable hleft size? := by
    rw [hreachable.leave?_of_left hleft, sitting_append settings prompt hcalm hinterrupt]
    exact (transcript?_eq_some size? (.inl rfl)).symm

/-- The letters of a line that is the end of the shell, and the Enter key. -/
private def farewell : List UInt8 := [101, 120, 105, 116, 13]

/-- Another line. -/
private def afterwards : List UInt8 := [101, 99, 104, 111, 13]

/-- As many letters as there are bytes in a block. -/
private def letters : List UInt8 := List.replicate Running.blockSize 97

/-- What is typed after the last line is not shown, and of an input with an interrupt in its second
block the first block is left. -/
theorem endings_final_farewell :
    Exits {} ['>'] farewell ∧
      (∃ output, ∀ size? ends,
        transcript? {} ['>'] size? farewell ends = some { exitCode := 0, output } ∧
          transcript? {} ['>'] size? (farewell ++ afterwards) ends =
            some { exitCode := 0, output }) ∧
        ∃ output, ∀ size? ends,
          transcript? {} ['>'] size? (letters ++ [97, Running.interrupt]) ends =
              some { exitCode := 0, output } ∧
            transcript? {} ['>'] size?
                ((letters ++ [97, Running.interrupt]).take (Running.blockSize * 1)) true =
              some { exitCode := 0, output } := by
  have hfarewell : Running.interrupt ∉ farewell := by decide
  have hafterwards : Running.interrupt ∉ afterwards := by decide
  have hsingle : blocks farewell = [farewell] := by
    rw [farewell, blocks, List.take_of_length_le (by decide), List.drop_of_length_le (by decide),
      blocks]
  have hquit : ((blocks farewell).foldl Running.receive
      (Running.start {} ['>'] none)).quit = true := by
    rw [hsingle]
    decide +kernel
  have hexits : Exits {} ['>'] farewell := ((endings_final {} ['>']).quits hfarewell none).1 hquit
  have hlength : letters.length = Running.blockSize := List.length_replicate
  have hblocks : blocks (letters ++ [97, Running.interrupt]) =
      [letters, [97, Running.interrupt]] := by
    rw [blocks_append hlength, blocks, List.take_of_length_le (by decide),
      List.drop_of_length_le (by decide), blocks]
  have hsecond : (blocks (letters ++ [97, Running.interrupt]))[1]? =
      some [97, Running.interrupt] := by
    rw [hblocks]
    rfl
  have hcalm : ∀ earlier ∈ (blocks (letters ++ [97, Running.interrupt])).take 1,
      Running.interrupt ∉ earlier := by
    rw [hblocks]
    intro earlier hearlier hinterrupt
    rw [List.mem_singleton.1 hearlier] at hinterrupt
    exact absurd (List.eq_of_mem_replicate hinterrupt) (by decide)
  exact ⟨hexits, (endings_final {} ['>']).exit hfarewell hafterwards hexits,
    (endings_final {} ['>']).interrupt hsecond (by decide) hcalm⟩

end LineEditor.Application
