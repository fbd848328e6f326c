import BraceScript.Value.Numeric

/-!
# Dictionaries

Entries in the order in which their keys were first put.

* `Dict.find?`, `Dict.insert`, `Dict.erase`   look up, put and remove by key
* `Dict.keys`, `Dict.values`   in order
-/

namespace BraceScript

/-- entries in the order in which their keys were first put -/
structure Dict where
  entries : List (Value × Value)
deriving Inhabited

namespace Dict

def empty : Dict := ⟨[]⟩

/-- the value under a key, among entries -/
def findIn (key : Value) : List (Value × Value) → Option Value
  | [] => none
  | (k, v) :: rest => if k.sameKey key then some v else findIn key rest

/-- put a value under a key: a key that is there keeps its place and its form -/
def insertIn (key value : Value) : List (Value × Value) → List (Value × Value)
  | [] => [(key, value)]
  | (k, v) :: rest =>
    if k.sameKey key then (k, value) :: rest else (k, v) :: insertIn key value rest

def eraseIn (key : Value) : List (Value × Value) → List (Value × Value)
  | [] => []
  | (k, v) :: rest => if k.sameKey key then rest else (k, v) :: eraseIn key rest

def find? (d : Dict) (key : Value) : Option Value := findIn key d.entries

def get? (d : Dict) (name : String) : Option Value := d.find? (.str name)

def insert (d : Dict) (key value : Value) : Dict := ⟨insertIn key value d.entries⟩

def erase (d : Dict) (key : Value) : Dict := ⟨eraseIn key d.entries⟩

def update (d : Dict) (other : Dict) : Dict :=
  other.entries.foldl (fun d (k, v) => d.insert k v) d

def keys (d : Dict) : List Value := d.entries.map Prod.fst

def values (d : Dict) : List Value := d.entries.map Prod.snd

def size (d : Dict) : Nat := d.entries.length

end Dict

end BraceScript
