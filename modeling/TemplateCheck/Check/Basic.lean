import TemplateCheck.Resolve.Basic
import TemplateCheck.Template.Query
import TemplateCheck.Tree.Edit

/-!
What the checks of template files work on.
-/

namespace TemplateCheck

structure CheckState where
  tree : TemplateTree
  store : TypeStore
  report : Report

/-- Works on a tree, a store and a report, unless a misuse ends it; what was done before stays. -/
abbrev Checking := ExceptT Misuse (StateM CheckState)

namespace Checking

variable {α : Type}

def query (question : TemplateTree → Except Misuse α) : Checking α := do
  match question (← getThe CheckState).tree with
  | .ok answer => return answer
  | .error misuse => throw misuse

def modifyPayload (n : NodeId) (change : Node → Node) : Checking Unit :=
  modifyThe CheckState fun s =>
    { s with tree := s.tree.update n fun slot => { slot with payload := change slot.payload } }

def resolving (m : Resolving α) : Checking α := do
  let s ← getThe CheckState
  let (a, r) := m ⟨s.store, s.report⟩
  set { s with store := r.store, report := r.report }
  return a

def complainAt (n : NodeId) (message : Message) (arguments : List String) : Checking Unit := do
  let location ← query (·.location n)
  modifyThe CheckState fun s => { s with report := s.report.error location message arguments }

end Checking
end TemplateCheck
