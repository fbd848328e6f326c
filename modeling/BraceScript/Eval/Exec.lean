import BraceScript.Eval.Assign
import BraceScript.Eval.Attribute
import BraceScript.Eval.Branch
import BraceScript.Eval.Call
import BraceScript.Eval.Embedded
import BraceScript.Eval.Loop
import BraceScript.Eval.Quoted

/-!
# Executing syntax trees

Each kind of tree has its rule; the rules call the machine for the trees inside. The machine of
more fuel is built from the rules over the machine of less.

* `execNode`   the rule of a tree
* `machine`    the machine of a given fuel
-/

namespace BraceScript

def unknownNode (n : Node) : Exec Value := do Exec.fail (.unknownNode ((← get).nodeText n))

/-- execute a tree that is not a quoted value in a scope -/
def execPlain (m : Machine) (scope : Nat) (node : Node) : Exec Value := do
  match node with
  | .num (.int n) => return .int n
  | .num (.real x) => return .float x
  | .str s => return .str s
  | .var name => Exec.lookup scope name
  | .list items => Exec.newList (← evalItems m scope #[] items)
  | .listComp body var iterable step conditions =>
    evalListComp m scope body var iterable step conditions
  | .dict items => Exec.newDict (← evalEntries m scope .empty items)
  | .dictComp key value var iterable condition =>
    evalDictComp m scope key value var iterable condition
  | .assign name value => evalAssign m scope name value
  | .augAssign name op value => evalAugAssign m scope name op value
  | .augAttr object attr op value => evalAugAttr m scope object attr op value
  | .augIndex object index op value => evalAugIndex m scope object index op value
  | .setIndex object index value => evalSetIndex m scope object index value
  | .setAttr object attr value =>
    let o ← m.exec object scope
    let v ← m.exec value scope
    Exec.putAttribute object o attr v
    return v
  | .binop op left right =>
    let (a, b) ← operands m scope left right
    Exec.arith op a b
  | .compare op left right =>
    let (a, b) ← operands m scope left right
    compareValues op a b
  | .inside left right =>
    let (a, b) ← operands m scope left right
    return .bool (← Exec.contains b a)
  | .outside left right =>
    let (a, b) ← operands m scope left right
    return .bool (!(← Exec.contains b a))
  | .and left right =>
    if ← Exec.truth (← m.exec left scope) then m.exec right scope else return .bool false
  | .or left right =>
    if ← Exec.truth (← m.exec left scope) then return .bool true else m.exec right scope
  | .not operand => return .bool (!(← Exec.truth (← m.exec operand scope)))
  | .ternary condition yes no =>
    if ← Exec.truth (← m.exec condition scope) then m.exec yes scope else m.exec no scope
  | .call callee args keywords => evalCall m scope callee args keywords
  | .getAttr object attr => Exec.getAttribute (← m.exec object scope) attr
  | .getItem object index => evalGetItem m scope object index
  | .index object index => evalIndex m scope object index
  | .slice object start stop step => evalSlice m scope object start stop step
  | .block body => runBlock m scope .null body
  | .ifChain branches => evalBranches m scope branches
  | .forEach var iterable step body => evalFor m scope var iterable step body
  | .whileLoop condition body => whileTurns m scope condition body m.fuel
  | .breakLoop => throw .breakLoop
  | .continueLoop => throw .continueLoop
  | .ret value => Exec.newTuple [.str "return", ← evalOption m scope value]
  | .global name => evalGlobal scope name
  | .tryCatch name body handler => evalTry m scope name body handler
  | .throw value => Exec.fail (.thrown (← m.exec value scope))
  | .classDef decl => declareClass decl
  | .define method => declareFunction method scope
  | .lambda params body =>
    let captured ← Exec.newScope ((← get).scope scope)
    return .function (← Exec.newFunction ⟨params, body, captured⟩)
  | .matchCase subject cases => evalCases m scope (← m.exec subject scope) cases
  | .embedded code => runEmbedded code scope
  | .includeFile path => includeInPlace m path scope
  | .unpack operand => m.exec operand scope
  | .keywordUnpack operand =>
    match ← m.exec operand scope with
    | .dict cell => Exec.newDict ((← get).dict cell)
    | _ => Exec.fail .unpackOperand
  | .neg _ => unknownNode node
  | .danglingOutside _ => unknownNode node
  | .quoted _ => unknownNode node

/-- execute a tree in a scope -/
def execNode (m : Machine) (scope : Nat) (node : Node) : Exec Value :=
  match node with
  | .quoted v => evalQuoted (execPlain m scope) v
  | node => execPlain m scope node

/-- the machine of a given fuel -/
def machine : Nat → Machine
  | 0 => ⟨fun _ _ w => .error .exhausted w, fun _ _ w => .error .exhausted w, 0⟩
  | n + 1 => ⟨fun node scope w => execNode (machine n) scope node w,
      fun f args w => callValue (machine n) f args w, n⟩

end BraceScript
