import TemplateCheck.Template.Node

/-!
Questions about template trees.
-/

namespace TemplateCheck

/-- What decides whether two velogs are the same placeholder: their data and their `logonly`. -/
structure SamenessKey where
  data : Expr
  logonly : Option Expr

namespace SamenessKey

def same (k l : SamenessKey) : Bool :=
  k.data.equivalent l.data &&
    match k.logonly, l.logonly with
    | some a, some b => a.equivalent b
    | none, none => true
    | _, _ => false

def hashedTexts (k : SamenessKey) : String × Option String := (k.data.text, k.logonly.map (·.text))

end SamenessKey

namespace TemplateTree

variable (t : TemplateTree)

def payloadOf (n : NodeId) : Option Node := (t.slot? n).map (·.payload)

def kindOf (n : NodeId) : Option NodeKind := (payloadOf t n).map (·.kind)

def isFile (n : NodeId) : Bool := kindOf t n == some .file

def ofKind (root : NodeId) (kind : NodeKind) : Except Misuse (List NodeId) :=
  t.matching root (·.kind == kind)

def enclosingFile (n : NodeId) : Except Misuse (Option NodeId) := do
  return (n :: (← t.ancestors n)).find? (isFile t)

def namespaceOf (n : NodeId) : String :=
  match payloadOf t n with
  | some (.file _ ns) => ns
  | _ => ""

/-- The full name of a template: a name that starts with a dot is joined to the namespace of its
file. -/
def fullName (n : NodeId) : Except Misuse String := do
  match ← t.payload n with
  | .template name _ =>
    match name.toList with
    | '.' :: rest =>
      let ns := ((← enclosingFile t n).map (namespaceOf t)).getD ""
      return if ns = "" then String.ofList rest else ns ++ name
    | _ => return name
  | _ => throw (.notA n "a template")

def attributeNamed (n : NodeId) (name : String) : Except Misuse (Option NodeId) := do
  return (← t.children n).find? fun child =>
    match payloadOf t child with
    | some (.htmlAttribute other _) => other == name
    | _ => false

def taggedPairs (n : NodeId) : Except Misuse (List NodeId) := do
  return ((← t.payload n).tag?.map (·.pairs)).getD []

def wrapped (kind : NodeKind) (n : NodeId) : Except Misuse (Option NodeId) := do
  match ← t.payload n, ← t.children n with
  | .msgPlaceholder _, [child] =>
    return if (← t.payload child).kind = kind then some child else none
  | _, _ => return none

/-- The node of a kind that a node is, or is a placeholder for. A node that does not render is passed
over for its next sibling, a bounded number of times. -/
def tagThrough (kind : NodeKind) : Nat → NodeId → Except Misuse (Option NodeId)
  | 0, _ => return none
  | steps + 1, n => do
    let payload ← t.payload n
    if !payload.isRendered then
      match ← t.nextSibling n with
      | some next => tagThrough kind steps next
      | none => return none
    else if payload.kind = kind then return some n
    else wrapped t kind n

def velogOpenTag (n : NodeId) : Except Misuse (Option NodeId) := do
  let children ← t.children n
  match children.head? with
  | some first => tagThrough t .openTag children.length first
  | none => return none

def velogCloseTag (n : NodeId) : Except Misuse (Option NodeId) := do
  let children ← t.children n
  if children.length < 2 then return none
  match children.getLast? with
  | some last => tagThrough t .closeTag children.length last
  | none => return none

/-- The key of a velog, taken from the velog that it refers to. -/
def samenessKey (n : NodeId) : Except Misuse SamenessKey := do
  match ← t.payload n with
  | .velog v =>
    match ← t.payload v.samenessKey with
    | .velog key => return ⟨key.data, key.logonly⟩
    | _ => throw (.badSamenessKey n v.samenessKey)
  | _ => throw (.notA n "a velog")

end TemplateTree
end TemplateCheck
