import LineEditor.Shell.CommandWord
import LineEditor.Text.Utf8.Slice

/-!
# Where words part

What some words share can be cut from the encoding of the first one. Each of the others is compared
with the first from its beginning, and the least of the places up to which they agree is where the
first is cut. The places are numbers of bytes, while the comparison is by characters.
-/

namespace LineEditor.Shell

open Utf8 (encode offsets slice?)

/-- The place in the encoding of a word up to which another one agrees with it: the end of the last
of the characters before the first that differs. -/
def agreementEnd (first word : List Char) : Nat :=
  (((offsets 0 first).zip word).takeWhile fun ((_, a), b) => a = b).getLast?.elim 0
    fun ((place, a), _) => place + a.utf8Size

/-- The place in the encoding of a word up to which some others agree with it. -/
def sharedEnd (first : List Char) (rest : List (List Char)) : Nat :=
  rest.foldl (fun place word => min (agreementEnd first word) place) (encode first).length

/-- What some words share, cut from the encoding of the first one; of no words it is empty. -/
def sharedBytes? : List (List Char) → Option (List UInt8)
  | [] => some []
  | first :: rest => slice? first (sharedEnd first rest)

end LineEditor.Shell
