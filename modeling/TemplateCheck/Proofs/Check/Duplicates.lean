import TemplateCheck.Proofs.Check.Collisions
import TemplateCheck.Proofs.Diagnostic.Filling
import TemplateCheck.Proofs.Lists

/-! Files that share their namespace. The check reports each mention of a file whose namespace is
also that of a listed file with another path, and names all these paths. -/

namespace TemplateCheck

namespace Namespaces

def Shares (listed : List FileEntry) (file : FileEntry) (path : String) : Prop :=
  file.fileNamespace ≠ "" ∧ path ≠ file.path ∧
    ∃ other ∈ listed, other.fileNamespace = file.fileNamespace ∧ other.path = path

def pathsListed (listed : List FileEntry) (ns : String) : List String :=
  (listed.filter (·.fileNamespace = ns)).map (·.path)

structure ListsOthers (listed : List FileEntry) (file : FileEntry) (others : List String) :
    Prop where
  mem_iff : ∀ path, path ∈ others ↔ Shares listed file path
  once : others.Nodup
  ordered : others.Pairwise fun p q =>
    (pathsListed listed file.fileNamespace).idxOf p <
      (pathsListed listed file.fileNamespace).idxOf q

/-- What is found at the nodes, one after the other: a file whose namespace is shared is found with
the paths that share it, each time that it comes, and nothing else. -/
inductive Finds (t : TemplateTree) (listed : List FileEntry) :
    List NodeId → List (FileEntry × List String) → Prop
  | nil : Finds t listed [] []
  | pass {n nodes found} (h : ∀ file path, fileOf t n = some file → ¬Shares listed file path)
      (hrest : Finds t listed nodes found) : Finds t listed (n :: nodes) found
  | find {n nodes file others found} (hfile : fileOf t n = some file)
      (hshared : ∃ path, Shares listed file path) (hothers : ListsOthers listed file others)
      (hrest : Finds t listed nodes found) : Finds t listed (n :: nodes) ((file, others) :: found)

variable {t : TemplateTree} {listed : List FileEntry} {file : FileEntry} {path ns : String}

theorem mem_pathsListed :
    path ∈ pathsListed listed ns ↔
      ∃ other ∈ listed, other.fileNamespace = ns ∧ other.path = path := by
  simp [pathsListed, and_assoc]

theorem pathsOf_eq : pathsOf listed ns = (pathsListed listed ns).eraseDups := by
  have heq (file : FileEntry) : (file.fileNamespace == ns) = decide (file.fileNamespace = ns) := rfl
  simp only [pathsOf, pathsListed, heq]

theorem mem_otherPaths : path ∈ otherPaths listed file ↔ Shares listed file path := by
  unfold otherPaths Shares
  split
  next hempty => simp [hempty]
  next hne =>
    rw [List.mem_filter, pathsOf_eq, List.mem_eraseDups, mem_pathsListed, bne_iff_ne]
    exact ⟨fun h => ⟨hne, h.2, h.1⟩, fun h => ⟨h.2.2, h.2.1⟩⟩

theorem otherPaths_sublist :
    (otherPaths listed file).Sublist (pathsListed listed file.fileNamespace).eraseDups := by
  unfold otherPaths
  split
  · exact List.nil_sublist _
  · exact pathsOf_eq ▸ List.filter_sublist

theorem listsOthers_otherPaths (listed : List FileEntry) (file : FileEntry) :
    ListsOthers listed file (otherPaths listed file) where
  mem_iff _ := mem_otherPaths
  once := (nodup_eraseDups _).sublist otherPaths_sublist
  ordered := (pairwise_eraseDups _).sublist otherPaths_sublist

def findOthers (listed : List FileEntry) (file : FileEntry) : List (FileEntry × List String) :=
  if (otherPaths listed file).isEmpty then [] else [(file, otherPaths listed file)]

theorem finds_findOthers (nodes : List NodeId) :
    Finds t listed nodes ((nodes.filterMap (fileOf t)).flatMap (findOthers listed)) := by
  induction nodes with
  | nil => exact .nil
  | cons n nodes ih =>
    cases hfile : fileOf t n with
    | none =>
      rw [List.filterMap_cons_none hfile]
      exact .pass (by simp [hfile]) ih
    | some file =>
      rw [List.filterMap_cons_some hfile, List.flatMap_cons, findOthers]
      split
      next hempty =>
        refine .pass (fun other path hother hshares => ?_) ih
        obtain rfl : file = other := Option.some.inj (hfile.symm.trans hother)
        have hmem := mem_otherPaths.2 hshares
        rw [List.isEmpty_iff.1 hempty] at hmem
        cases hmem
      next hne =>
        obtain ⟨path, hpath⟩ := List.exists_mem_of_ne_nil _ fun h => hne (List.isEmpty_iff.2 h)
        exact .find hfile ⟨path, mem_otherPaths.1 hpath⟩ (listsOthers_otherPaths listed file) ih

end Namespaces

namespace Checking
open Namespaces
variable {t : TemplateTree} {s : TypeStore} {report : Report} {files : List NodeId}
  {exempt : List String} {listed : List FileEntry} {file : FileEntry}

def duplicateText (exempted : Bool) (others : List String) : String :=
  "Found another file '" ++ Text.commaList others ++
    if exempted then
      "' with the same namespace. All files should have unique " ++
        "namespaces. This will soon become an error."
    else "' with the same namespace. All files must have unique namespaces."

/-- The report on a file whose namespace is that of files with other paths. -/
def duplicate (t : TemplateTree) (exempt : List String) (file : FileEntry) (others : List String) :
    Diagnostic :=
  let location := ((t.slot? file.node).map (·.location)).getD .unknown
  let exempted := file.fileNamespace ∈ exempt
  { file := location.path
    start := location.start
    length := location.length
    text := duplicateText exempted others
    severity := if exempted then .warning else .error
    code := if exempted then 2007 else 2006 }

theorem run_forM_extend {β : Type} {f : β → Checking Unit} {g : β → List Diagnostic} {l : List β}
    (h : ∀ b ∈ l, ∀ report, f b ⟨t, s, report⟩ = (.ok (), ⟨t, s, report.extend (g b)⟩)) :
    l.forM f ⟨t, s, report⟩ = (.ok (), ⟨t, s, report.extend (l.flatMap g)⟩) := by
  induction l generalizing report with
  | nil =>
    rw [List.flatMap_nil, Report.extend_nil]
    rfl
  | cons b rest ih =>
    obtain ⟨hb, hrest⟩ := List.forall_mem_cons.1 h
    rw [List.forM, run_bind, hb]
    dsimp only
    rw [ih hrest, Report.extend_extend, List.flatMap_cons]

theorem fill_duplicateNamespace (text : String) :
    Diagnostic.fill Message.duplicateNamespace.template [text] = "Found another file '" ++ text ++
      "' with the same namespace. All files must have unique namespaces." := by
  have htemplate : Message.duplicateNamespace.template = "Found another file '" ++ "\x7b0\x7d" ++
      "' with the same namespace. All files must have unique namespaces." := rfl
  exact Diagnostic.fill_single htemplate (by simp) (by simp) text

theorem fill_duplicateNamespaceWarning (text : String) :
    Diagnostic.fill Message.duplicateNamespaceWarning.template [text] = "Found another file '" ++
      text ++ ("' with the same namespace. All files should have unique " ++
        "namespaces. This will soon become an error.") := by
  have htemplate : Message.duplicateNamespaceWarning.template = "Found another file '" ++
      "\x7b0\x7d" ++ ("' with the same namespace. All files should have unique " ++
        "namespaces. This will soon become an error.") := rfl
  exact Diagnostic.fill_single htemplate (by simp) (by simp) text

theorem duplicate_of (others : List String) : duplicate t exempt file others =
    let location := ((t.slot? file.node).map (·.location)).getD .unknown
    if file.fileNamespace ∈ exempt then
      .of .warning location .duplicateNamespaceWarning [Text.commaList others]
    else .of .error location .duplicateNamespace [Text.commaList others] := by
  unfold duplicate duplicateText Diagnostic.of
  rw [fill_duplicateNamespace, fill_duplicateNamespaceWarning]
  split <;> simp [*, Message.code]

theorem checkDuplicates_foreign (h : ∃ f ∈ files, ¬t.Allocated f) :
    ∃ misuse, checkDuplicates exempt files ⟨t, s, report⟩ = (.error misuse, ⟨t, s, report⟩) := by
  obtain ⟨misuse, hrun⟩ := run_fileEntries_foreign h
  refine ⟨misuse, run_query_bind_error _ ?_⟩
  rw [hrun]
  rfl

theorem run_checkDuplicates (h : ∀ f ∈ files, t.Allocated f) :
    checkDuplicates exempt files ⟨t, s, report⟩ = (.ok (), ⟨t, s, report.extend
      (((files.filterMap (fileOf t)).flatMap (findOthers (files.filterMap (fileOf t)))).map
        fun (file, others) => duplicate t exempt file others)⟩) := by
  rw [checkDuplicates, fileEntries, run_query_bind (a := files.filterMap (fileOf t)),
    List.map_flatMap]
  · refine run_forM_extend fun file hfile report => ?_
    obtain ⟨f, -, hf⟩ := List.mem_filterMap.1 hfile
    obtain ⟨slot, hslot⟩ := Tree.slot?_eq_some (allocated_of_fileOf hf)
    have hlocation : t.location file.node = .ok slot.location := by
      rw [Tree.location, Tree.slot, hslot]
      rfl
    dsimp only
    rw [findOthers]
    split
    next => rw [List.map_nil, Report.extend_nil]; rfl
    next =>
      rw [run_query_bind _ hlocation, List.map_singleton, duplicate_of, hslot]
      simp only [List.contains_iff_mem]
      by_cases hexempt : file.fileNamespace ∈ exempt
      · simp only [if_pos hexempt]
        rfl
      · simp only [if_neg hexempt]
        rfl
  · rw [run_fileEntries h]
    exact congrArg Except.ok List.filterMap_map

/-- Each file of the list is reported whose namespace is shared, as often as it is listed and in the
order of the list. A foreign node is a misuse. -/
theorem checkDuplicates_reports (t : TemplateTree) (exempt : List String) (files : List NodeId)
    (s : TypeStore) (report : Report) :
    ((∃ f ∈ files, ¬t.Allocated f) →
        ∃ misuse, checkDuplicates exempt files ⟨t, s, report⟩ = (.error misuse, ⟨t, s, report⟩)) ∧
      ((∀ f ∈ files, t.Allocated f) →
        ∃ found, Finds t (files.filterMap (fileOf t)) files found ∧
          checkDuplicates exempt files ⟨t, s, report⟩ =
            (.ok (), ⟨t, s, report.extend (found.map fun (file, others) =>
              duplicate t exempt file others)⟩)) :=
  ⟨checkDuplicates_foreign, fun h => ⟨_, finds_findOthers files, run_checkDuplicates h⟩⟩

def shelf : TemplateTree :=
  (Workspace.run [.add .unknown (.file "a.soy" "shop"), .add .unknown (.file "b.soy" "shop"),
    .add .unknown (.file "c.soy" ""), .add .unknown (.template ".cart" [])]).tree

theorem checkDuplicates_reports_shelf :
    (∃ misuse, checkDuplicates ["shop"] [⟨0⟩, ⟨4⟩] ⟨shelf, Session.single.store, .empty⟩ =
        (.error misuse, ⟨shelf, Session.single.store, .empty⟩)) ∧
      ∃ found, Finds shelf ([⟨0⟩, ⟨3⟩, ⟨1⟩, ⟨2⟩, ⟨0⟩].filterMap (fileOf shelf))
          [⟨0⟩, ⟨3⟩, ⟨1⟩, ⟨2⟩, ⟨0⟩] found ∧
        checkDuplicates ["shop"] [⟨0⟩, ⟨3⟩, ⟨1⟩, ⟨2⟩, ⟨0⟩]
            ⟨shelf, Session.single.store, .empty⟩ =
          (.ok (), ⟨shelf, Session.single.store, Report.empty.extend
            (found.map fun (file, others) => duplicate shelf ["shop"] file others)⟩) :=
  ⟨(checkDuplicates_reports shelf ["shop"] [⟨0⟩, ⟨4⟩] Session.single.store .empty).1
      ⟨⟨4⟩, by decide⟩,
    (checkDuplicates_reports shelf ["shop"] [⟨0⟩, ⟨3⟩, ⟨1⟩, ⟨2⟩, ⟨0⟩] Session.single.store
      .empty).2 (by decide)⟩

end Checking
end TemplateCheck
