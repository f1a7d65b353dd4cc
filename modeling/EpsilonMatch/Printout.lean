/-!
# EpsilonMatch.Printout

Text that is printed line by line and may stop at a failure. The lines before
the failure stay printed; a line that was still being computed is not.

* `Printout.ofResults` prints computed lines up to the first failure.
* `Printout.text` is the printed text, every line closed by a newline.
-/

namespace EpsilonMatch

/-- The lines that were printed and the failure, if any, that ended the
printing. -/
structure Printout (ε : Type) where
  lines : List String
  failure : Option ε := none

namespace Printout

variable {ε : Type}

/-- The printed text: every line is closed by a newline. -/
def text (p : Printout ε) : String :=
  String.join (p.lines.map (· ++ "\n"))

/-- Prints lines in order until one of them fails. -/
def ofResults : List (Except ε String) → Printout ε
  | [] => { lines := [] }
  | .ok line :: rest =>
    let printed := ofResults rest
    { printed with lines := line :: printed.lines }
  | .error e :: _ => { lines := [], failure := some e }

@[simp] theorem ofResults_nil : ofResults ([] : List (Except ε String)) = { lines := [] } := rfl

@[simp] theorem ofResults_error (e : ε) (rest : List (Except ε String)) :
    ofResults (.error e :: rest) = { lines := [], failure := some e } := rfl

end Printout

end EpsilonMatch
