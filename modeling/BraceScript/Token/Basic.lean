/-!
# Tokens

A token is a piece of source text with its kind. The text of a token has lost the quote marks at
its ends.

* `Token.Kind`   the kinds, with `Kind.label` their names in messages
* `Token`        a kind and a text
-/

namespace BraceScript

namespace Token

/-- the kind of a token; `other` is for tokens that no source text gives -/
inductive Kind
  | augAssign
  | compare
  | op
  | string
  | number
  | keyword
  | ident
  | symbol
  | other (label : String)
deriving DecidableEq, Repr, Inhabited

def Kind.label : Kind → String
  | augAssign => "AUG_ASSIGN"
  | compare => "COMPARE"
  | op => "OP"
  | string => "STRING"
  | number => "NUMBER"
  | keyword => "KEYWORD"
  | ident => "IDENT"
  | symbol => "SYMBOL"
  | other label => label

def Kind.ofLabel (s : String) : Kind :=
  match s with
  | "AUG_ASSIGN" => augAssign
  | "COMPARE" => compare
  | "OP" => op
  | "STRING" => string
  | "NUMBER" => number
  | "KEYWORD" => keyword
  | "IDENT" => ident
  | "SYMBOL" => symbol
  | _ => other s

end Token

/-- a piece of source text with its kind -/
structure Token where
  kind : Token.Kind
  text : String
deriving DecidableEq, Repr, Inhabited

end BraceScript
