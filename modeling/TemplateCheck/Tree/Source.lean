import TemplateCheck.Tree.Basic

/-!
The source text of a tree. A payload writes what stands before, between and behind its children.
-/

namespace TemplateCheck

class Sourced (P : Type) where
  opening : P → String
  closing : P → String
  /-- Stands before each child. -/
  separator : P → String

namespace Tree

variable {P : Type} [Sourced P]

def childrenText (t : Tree P) (one : NodeId → String) (n : NodeId) : String :=
  match t.slot? n with
  | some slot =>
    slot.children.foldl (fun text child => text ++ Sourced.separator slot.payload ++ one child) ""
  | none => ""

def textWithin (t : Tree P) : Nat → NodeId → String
  | 0, _ => ""
  | depth + 1, n =>
    match t.slot? n with
    | some slot =>
      Sourced.opening slot.payload ++ t.childrenText (t.textWithin depth) n ++
        Sourced.closing slot.payload
    | none => ""

def text (t : Tree P) (n : NodeId) : String := t.textWithin t.size n

def source (t : Tree P) (n : NodeId) : Except Misuse String := do
  let _ ← t.slot n
  return t.text n

def innerSource (t : Tree P) (n : NodeId) : Except Misuse String := do
  let _ ← t.slot n
  return t.childrenText t.text n

end Tree
end TemplateCheck
