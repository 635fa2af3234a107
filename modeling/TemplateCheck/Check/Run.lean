import TemplateCheck.Check.Keys
import TemplateCheck.Check.Namespaces
import TemplateCheck.Check.Types

/-!
Running checks over a list of files: first each check of single files over all of them, then the
checks that need all files together.
-/

namespace TemplateCheck

inductive FileCheck where
  | types
  | keys
deriving DecidableEq, Repr

/-- The checks to run. Each set of exempt namespaces stands for one check of the namespaces. -/
structure CheckPlan where
  fileChecks : List FileCheck
  namespaceChecks : List (List String)
deriving Repr

def CheckPlan.standard : CheckPlan := ⟨[.types, .keys], [[]]⟩

namespace Checking

variable (registry : Registry)

def runFileCheck (check : FileCheck) (file : NodeId) : Checking Unit :=
  match check with
  | .types => resolveTypes registry file
  | .keys => checkKeys file

def run (plan : CheckPlan) (files : List NodeId) : Checking Unit := do
  plan.fileChecks.forM fun check => files.forM (runFileCheck registry check)
  plan.namespaceChecks.forM fun exempt => checkNamespaces exempt files

end Checking

/-- The diagnostics of the standard checks, and what the checks have made of tree and store. -/
def checkFiles (registry : Registry) (files : List NodeId) (tree : TemplateTree)
    (store : TypeStore) : Except Misuse (List Diagnostic) × TemplateTree × TypeStore :=
  match Checking.run registry .standard files ⟨tree, store, .empty⟩ with
  | (.ok _, s) => (.ok s.report.diagnostics, s.tree, s.store)
  | (.error misuse, s) => (.error misuse, s.tree, s.store)

end TemplateCheck
