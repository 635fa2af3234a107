import TemplateCheck.Check.Basic
import TemplateCheck.Types.Assignable

/-!
Checks of `key` commands. A key stands directly in an open tag that has one close tag at most, the
tag has no `key` attribute, and the key is a string or an integer.
-/

namespace TemplateCheck.Checking

def openTagAround (n : NodeId) : Checking (Option NodeId) := do
  match ← query (·.parent n) with
  | some parent =>
    let node ← query (·.payload parent)
    return if node.kind = .openTag then some parent else none
  | none => return none

def checkPlace (n : NodeId) : Checking Unit := do
  match ← openTagAround n with
  | none => complainAt n .keyOutsideOpenTag []
  | some tag =>
    match ← query (TemplateTree.taggedPairs · tag) with
    | [] => return ()
    | [close] =>
      let back ← query (TemplateTree.taggedPairs · close)
      if back = [tag] then return () else complainAt tag .ambiguousKeyElement []
    | _ => complainAt n .ambiguousKeyElement []

def checkNoKeyAttribute (n : NodeId) : Checking Unit := do
  match ← openTagAround n with
  | none => return ()
  | some tag =>
    match ← query (TemplateTree.attributeNamed · tag "key") with
    | some found => complainAt found .keyAttribute []
    | none => return ()

def isKeyExpr (store : TypeStore) : Expr → Bool
  | .int _ => true
  | .string _ => true
  | .var _ type =>
    let t := type.getD .unknown
    store.isAssignable .loose t .int || store.isAssignable .loose t .string
  | _ => false

def checkKeyType (n : NodeId) : Checking Unit := do
  match ← query (·.payload n) with
  | .key expr =>
    if isKeyExpr (← getThe CheckState).store expr then return ()
    else complainAt n .unsupportedKeyType []
  | _ => return ()

def checkKeys (file : NodeId) : Checking Unit := do
  (← query (TemplateTree.ofKind · file .key)).forM fun n => do
    checkPlace n
    checkNoKeyAttribute n
    checkKeyType n

end TemplateCheck.Checking
