import TemplateCheck.Check.Basic

/-!
Checks of the namespaces of several files: each file has its own, and no template has the name of
a namespace's beginning.
-/

namespace TemplateCheck

namespace Namespaces

structure FileEntry where
  node : NodeId
  path : String
  fileNamespace : String
deriving Repr

def fileEntry (t : TemplateTree) (n : NodeId) : Except Misuse (Option FileEntry) := do
  match ← t.payload n with
  | .file path ns => return some ⟨n, path, ns⟩
  | _ => return none

def pathsOf (files : List FileEntry) (ns : String) : List String :=
  ((files.filter (·.fileNamespace == ns)).map (·.path)).eraseDups

def otherPaths (files : List FileEntry) (file : FileEntry) : List String :=
  if file.fileNamespace = "" then []
  else (pathsOf files file.fileNamespace).filter (· != file.path)

structure TemplateEntry where
  name : String
  node : NodeId
  path : String
deriving Repr

def templateEntries (t : TemplateTree) (file : FileEntry) : Except Misuse (List TemplateEntry) := do
  (← TemplateTree.ofKind t file.node .template).mapM fun n => do
    return ⟨← TemplateTree.fullName t n, n, file.path⟩

def dropRepeated (last : TemplateEntry) : List TemplateEntry → List TemplateEntry
  | [] => []
  | e :: rest => if e.name = last.name then dropRepeated last rest else e :: dropRepeated e rest

def byName (entries : List TemplateEntry) : List TemplateEntry :=
  match Order.sortBy (fun e f => decide (e.name ≤ f.name)) entries with
  | [] => []
  | e :: rest => e :: dropRepeated e rest

def continues (beginning name : String) : Bool :=
  (beginning.toList ++ ['.']).isPrefixOf name.toList

def neighbours : List TemplateEntry → List (TemplateEntry × TemplateEntry)
  | e :: f :: rest => (e, f) :: neighbours (f :: rest)
  | _ => []

/-- The name without its last segment. -/
def namespacePart (name : String) : String := Text.joinSegments (Text.segments name).dropLast

end Namespaces

namespace Checking

open Namespaces

def fileEntries (files : List NodeId) : Checking (List FileEntry) :=
  query fun t => return (← files.mapM (fileEntry t)).filterMap id

/-- Reports each file whose namespace is also that of another file; exempt namespaces are worth a
warning only. -/
def checkDuplicates (exempt : List String) (files : List NodeId) : Checking Unit := do
  let entries ← fileEntries files
  entries.forM fun file => do
    let others := otherPaths entries file
    if others.isEmpty then return ()
    let location ← query (·.location file.node)
    let text := Text.joinWith ", " others
    modifyThe CheckState fun s =>
      { s with report :=
          if exempt.contains file.fileNamespace then
            s.report.warning location .duplicateNamespaceWarning [text]
          else s.report.error location .duplicateNamespace [text] }

/-- Reports each template whose name is the beginning of a namespace. In the order of names, such a
template is directly before one of that namespace. -/
def checkCollisions (files : List NodeId) : Checking Unit := do
  let entries ← fileEntries files
  let templates ← query fun t => return (← entries.mapM (templateEntries t)).flatten
  (neighbours (byName templates)).forM fun (e, f) => do
    if continues e.name f.name then
      complainAt e.node .namespaceCollision [e.name, namespacePart f.name, f.path]

def checkNamespaces (exempt : List String) (files : List NodeId) : Checking Unit := do
  checkDuplicates exempt files
  checkCollisions files

end Checking
end TemplateCheck
