import BraceScript.Value

/-!
# Scopes

The variables that a piece of code sees. A handler without a name keeps its message in a place of
its own.

* `Scope.find?`, `Scope.insert`   look up and bind a name
-/

namespace BraceScript

/-- the variables that a piece of code sees -/
structure Scope where
  vars : List (String × Value)
  /-- the message kept by the last handler without a name -/
  unnamed : Option Value
deriving Inhabited

namespace Scope

/-- the value of a name -/
def find? (s : Scope) (name : String) : Option Value := s.vars.lookup name

def replaceIn (name : String) (value : Value) : List (String × Value) → Option (List (String × Value))
  | [] => none
  | (k, v) :: rest =>
    if k = name then some ((k, value) :: rest)
    else (replaceIn name value rest).map ((k, v) :: ·)

def insert (s : Scope) (name : String) (value : Value) : Scope :=
  match replaceIn name value s.vars with
  | some vars => ⟨vars, s.unnamed⟩
  | none => ⟨(name, value) :: s.vars, s.unnamed⟩

end Scope

end BraceScript
