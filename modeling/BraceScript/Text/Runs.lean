/-!
# Sets of code points given by runs

A character class is a list of numbers: how many code points are passed over, how many then belong to the
class, how many are passed over after them, and so on.

* `inRuns`   is a code point in the class?
-/

namespace BraceScript.Text

/-- is the code point `n` in the class, when code points are counted from where the runs begin? -/
def inRuns : List Nat → Nat → Bool
  | skipped :: taken :: rest, n =>
    if n < skipped then false
    else if n < skipped + taken then true
    else inRuns rest (n - (skipped + taken))
  | _, _ => false

end BraceScript.Text
