import TemplateCheck.Check.Namespaces
import TemplateCheck.Proofs.Check.Steps
import TemplateCheck.Proofs.Resolve.Repeating
import TemplateCheck.Proofs.Sorting
import TemplateCheck.Proofs.Template.Building
import TemplateCheck.Proofs.Tree.Preorder
import TemplateCheck.Proofs.Tree.Workspace

/-! Templates whose names are the beginning of namespaces. The check looks for them among neighbours
in the order of names, so it misses those that another name comes next to: one that continues with a
character before the dot. -/

namespace TemplateCheck

namespace Namespaces

section Names
variable {b n m : List Char} {c d : Char}

theorem lt_append : b < b ++ c :: m := by
  induction b with
  | nil => exact List.nil_lt_cons c m
  | cons x b ih => exact List.cons_lt_cons_iff.2 (.inr ⟨rfl, ih⟩)

theorem append_lt_append (h : c < d) : b ++ c :: n < b ++ d :: m := by
  induction b with
  | nil => exact List.cons_lt_cons_iff.2 (.inl h)
  | cons x b ih => exact List.cons_lt_cons_iff.2 (.inr ⟨rfl, ih⟩)

theorem exists_of_between (hbn : b < n) (hn : ¬b ++ d :: m < n) :
    ∃ c s, n = b ++ c :: s ∧ c ≤ d := by
  induction b generalizing n with
  | nil =>
    cases n with
    | nil => exact absurd hbn (lt_irrefl _)
    | cons c s =>
      refine ⟨c, s, rfl, not_lt.1 fun hdc => hn ?_⟩
      exact List.cons_lt_cons_iff.2 (.inl hdc)
  | cons x b ih =>
    cases n with
    | nil => exact absurd hbn (List.not_lt_nil _)
    | cons y n =>
      rw [List.cons_append, List.cons_lt_cons_iff, not_or] at hn
      rcases List.cons_lt_cons_iff.1 hbn with hxy | ⟨rfl, hlt⟩
      · exact absurd hxy hn.1
      · obtain ⟨c, s, rfl, hcd⟩ := ih hlt fun hmn => hn.2 ⟨rfl, hmn⟩
        exact ⟨c, s, rfl, hcd⟩

def Intervenes (beginning name : String) : Prop :=
  ∃ c rest, name.toList = beginning.toList ++ c :: rest ∧ c < '.'

theorem continues_iff {beginning name : String} :
    continues beginning name ↔ ∃ rest, name.toList = beginning.toList ++ '.' :: rest := by
  rw [continues, List.isPrefixOf_iff_prefix]
  refine exists_congr fun rest => ?_
  rw [List.append_assoc, eq_comm]
  rfl

theorem lt_of_continues {beginning name : String} (h : continues beginning name) :
    beginning < name := by
  obtain ⟨rest, hname⟩ := continues_iff.1 h
  rw [String.lt_iff_toList_lt, hname]
  exact lt_append

theorem Intervenes.lt {beginning name : String} (h : Intervenes beginning name) :
    beginning < name := by
  obtain ⟨c, rest, hname, -⟩ := h
  rw [String.lt_iff_toList_lt, hname]
  exact lt_append

theorem Intervenes.lt_of_continues {beginning between name : String}
    (h : Intervenes beginning between) (hname : continues beginning name) : between < name := by
  obtain ⟨c, rest, hbetween, hc⟩ := h
  obtain ⟨rest', hname⟩ := continues_iff.1 hname
  rw [String.lt_iff_toList_lt, hbetween, hname]
  exact append_lt_append hc

theorem continues_or_intervenes {beginning between name : String} (hlt : beginning < between)
    (hle : between ≤ name) (h : continues beginning name) :
    continues beginning between ∨ Intervenes beginning between := by
  obtain ⟨rest, hname⟩ := continues_iff.1 h
  rw [String.lt_iff_toList_lt] at hlt
  rw [← not_lt, String.lt_iff_toList_lt, hname] at hle
  obtain ⟨c, s, hbetween, hc⟩ := exists_of_between hlt hle
  rcases eq_or_lt_of_le hc with rfl | hc
  · exact .inl (continues_iff.2 ⟨s, hbetween⟩)
  · exact .inr ⟨c, s, hbetween, hc⟩

end Names

section Order
variable {entries l : List TemplateEntry} {e f last : TemplateEntry} {n : String}

def Ascending (l : List TemplateEntry) : Prop := l.Pairwise fun e f => e.name < f.name

theorem lt_of_mem_dropRepeated (h : (last :: l).Pairwise fun e f => e.name ≤ f.name)
    (he : e ∈ dropRepeated last l) : last.name < e.name := by
  induction l generalizing last with
  | nil => cases he
  | cons a rest ih =>
    obtain ⟨hlast, hrest⟩ := List.pairwise_cons.1 h
    rw [dropRepeated] at he
    split at he
    next heq =>
      refine ih (List.pairwise_cons.2 ⟨fun b hb => ?_, hrest.tail⟩) he
      exact hlast b (List.mem_cons_of_mem _ hb)
    next hne =>
      have hlt : last.name < a.name :=
        lt_of_le_of_ne (hlast a (List.mem_cons_self ..)) (Ne.symm hne)
      rcases List.mem_cons.1 he with rfl | he
      · exact hlt
      · exact hlt.trans (ih hrest he)

theorem ascending_dropRepeated (h : (last :: l).Pairwise fun e f => e.name ≤ f.name) :
    Ascending (last :: dropRepeated last l) := by
  refine List.pairwise_cons.2 ⟨fun e he => lt_of_mem_dropRepeated h he, ?_⟩
  induction l generalizing last with
  | nil => exact .nil
  | cons a rest ih =>
    obtain ⟨hlast, hrest⟩ := List.pairwise_cons.1 h
    rw [dropRepeated]
    split
    next heq =>
      refine ih (List.pairwise_cons.2 ⟨fun b hb => ?_, hrest.tail⟩)
      exact hlast b (List.mem_cons_of_mem _ hb)
    next => exact List.pairwise_cons.2 ⟨fun e he => lt_of_mem_dropRepeated hrest he, ih hrest⟩

theorem find?_dropRepeated : (last :: dropRepeated last l).find? (·.name == n) =
    (last :: l).find? (·.name == n) := by
  induction l generalizing last with
  | nil => rfl
  | cons a rest ih =>
    rw [dropRepeated]
    split
    next heq =>
      rw [ih, List.find?_cons, List.find?_cons, List.find?_cons, heq]
      cases last.name == n <;> rfl
    next =>
      rw [List.find?_cons, ih]
      rfl

theorem ascending_byName (entries : List TemplateEntry) : Ascending (byName entries) := by
  have hsorted : (Order.sortBy (fun e f : TemplateEntry => decide (e.name ≤ f.name))
      entries).Pairwise fun e f => e.name ≤ f.name := Order.sortBy_name_sorted entries
  rw [byName]
  cases hl : Order.sortBy (fun e f : TemplateEntry => decide (e.name ≤ f.name)) entries with
  | nil => exact .nil
  | cons e rest => exact ascending_dropRepeated (hl ▸ hsorted)

theorem find?_byName (entries : List TemplateEntry) (n : String) :
    (byName entries).find? (·.name == n) = entries.find? (·.name == n) := by
  have hsort : (Order.sortBy (fun e f : TemplateEntry => decide (e.name ≤ f.name)) entries).find?
      (·.name == n) = entries.find? (·.name == n) := by
    refine Order.find?_sortBy fun a b ha hb => ?_
    rw [beq_iff_eq] at ha hb
    exact decide_eq_true (le_of_eq (ha.trans hb.symm))
  rw [← hsort, byName]
  cases Order.sortBy (fun e f : TemplateEntry => decide (e.name ≤ f.name)) entries with
  | nil => rfl
  | cons e rest => exact find?_dropRepeated

theorem Ascending.find?_eq_some (h : Ascending l) :
    l.find? (·.name == e.name) = some e ↔ e ∈ l := by
  refine ⟨List.mem_of_find?_eq_some, fun he => ?_⟩
  induction l with
  | nil => cases he
  | cons a rest ih =>
    obtain ⟨ha, hrest⟩ := List.pairwise_cons.1 h
    rw [List.find?_cons]
    rcases List.mem_cons.1 he with rfl | he
    · rw [beq_self_eq_true]
    · rw [beq_false_of_ne (ha e he).ne]
      exact ih hrest he

theorem mem_byName : e ∈ byName entries ↔ entries.find? (·.name == e.name) = some e := by
  rw [← (ascending_byName entries).find?_eq_some, find?_byName]

theorem exists_mem_byName (he : e ∈ entries) : ∃ f ∈ byName entries, f.name = e.name := by
  cases hf : entries.find? (·.name == e.name) with
  | none =>
    exact absurd (beq_self_eq_true e.name) (List.find?_eq_none.1 hf e he)
  | some f =>
    have hbeq := List.find?_some hf
    have hname : f.name = e.name := eq_of_beq hbeq
    refine ⟨f, mem_byName.2 ?_, hname⟩
    rw [hname]
    exact hf

theorem map_fst_neighbours (l : List TemplateEntry) : (neighbours l).map Prod.fst = l.dropLast := by
  induction l with
  | nil => rfl
  | cons a rest ih =>
    cases rest with
    | nil => rfl
    | cons b rest => rw [neighbours, List.map_cons, ih, List.dropLast_cons_cons]

theorem Ascending.of_mem_neighbours (h : Ascending l) (hef : (e, f) ∈ neighbours l) :
    e ∈ l ∧ f ∈ l ∧ e.name < f.name ∧ ∀ g ∈ l, e.name < g.name → f.name ≤ g.name := by
  induction l with
  | nil => cases hef
  | cons a rest ih =>
    cases rest with
    | nil => cases hef
    | cons b rest =>
      obtain ⟨ha, hrest⟩ := List.pairwise_cons.1 h
      have hb := (List.pairwise_cons.1 hrest).1
      rw [neighbours] at hef
      rcases List.mem_cons.1 hef with heq | hef
      · obtain ⟨rfl, rfl⟩ := Prod.mk.inj heq
        refine ⟨List.mem_cons_self .., by simp, ha f (List.mem_cons_self ..), fun g hg hlt => ?_⟩
        rcases List.mem_cons.1 hg with rfl | hg
        · exact absurd hlt (lt_irrefl _)
        rcases List.mem_cons.1 hg with rfl | hg
        · exact le_refl _
        · exact (hb g hg).le
      · obtain ⟨he, hf, hlt, hleast⟩ := ih hrest hef
        refine ⟨List.mem_cons_of_mem _ he, List.mem_cons_of_mem _ hf, hlt, fun g hg hlt => ?_⟩
        rcases List.mem_cons.1 hg with rfl | hg
        · exact absurd hlt (ha e he).asymm
        · exact hleast g hg hlt

theorem Ascending.exists_neighbour (h : Ascending l) (he : e ∈ l) (hf : f ∈ l)
    (hlt : e.name < f.name) : ∃ g, (e, g) ∈ neighbours l := by
  induction l with
  | nil => cases he
  | cons a rest ih =>
    obtain ⟨ha, hrest⟩ := List.pairwise_cons.1 h
    rcases List.mem_cons.1 hf with rfl | hf
    · rcases List.mem_cons.1 he with rfl | he
      · exact absurd hlt (lt_irrefl _)
      · exact absurd hlt (ha e he).asymm
    cases rest with
    | nil => cases hf
    | cons b rest =>
      rw [neighbours]
      rcases List.mem_cons.1 he with rfl | he
      · exact ⟨b, List.mem_cons_self ..⟩
      · obtain ⟨g, hg⟩ := ih hrest he hf
        exact ⟨g, List.mem_cons_of_mem _ hg⟩

end Order

section Reported
variable {entries : List TemplateEntry} {e f : TemplateEntry}

def colliding (entries : List TemplateEntry) : List (TemplateEntry × TemplateEntry) :=
  (neighbours (byName entries)).filter fun (e, f) => continues e.name f.name

/-- The entries that are reported, each with one of the namespace that it is the beginning of. No
name is reported twice. -/
structure Reported (entries : List TemplateEntry) (pairs : List (TemplateEntry × TemplateEntry)) :
    Prop where
  once : (pairs.map (·.1.name)).Nodup
  continued : ∀ p ∈ pairs, p.2 ∈ entries ∧ continues p.1.name p.2.name
  exact : ∀ e, (∃ f, (e, f) ∈ pairs) ↔ entries.find? (·.name == e.name) = some e ∧
    (∃ f ∈ entries, continues e.name f.name) ∧ ∀ g ∈ entries, ¬Intervenes e.name g.name

theorem exists_colliding_iff : (∃ f, (e, f) ∈ colliding entries) ↔
    entries.find? (·.name == e.name) = some e ∧ (∃ f ∈ entries, continues e.name f.name) ∧
      ∀ g ∈ entries, ¬Intervenes e.name g.name := by
  have hascending := ascending_byName entries
  constructor
  · rintro ⟨f, hef⟩
    obtain ⟨hef, hcontinues⟩ := List.mem_filter.1 hef
    obtain ⟨he, hf, -, hleast⟩ := hascending.of_mem_neighbours hef
    refine ⟨mem_byName.1 he, ⟨f, List.mem_of_find?_eq_some (mem_byName.1 hf), hcontinues⟩, ?_⟩
    intro g hg hintervenes
    obtain ⟨k, hk, hname⟩ := exists_mem_byName hg
    rw [← hname] at hintervenes
    have hle := hleast k hk hintervenes.lt
    exact absurd (hintervenes.lt_of_continues hcontinues) hle.not_gt
  · rintro ⟨he, ⟨f, hf, hcontinues⟩, hnone⟩
    have he := mem_byName.2 he
    obtain ⟨k, hk, hname⟩ := exists_mem_byName hf
    rw [← hname] at hcontinues
    obtain ⟨g, hg⟩ := hascending.exists_neighbour he hk (lt_of_continues hcontinues)
    obtain ⟨-, hmem, hlt, hleast⟩ := hascending.of_mem_neighbours hg
    have hle := hleast k hk (lt_of_continues hcontinues)
    have hmem := List.mem_of_find?_eq_some (mem_byName.1 hmem)
    refine ⟨g, List.mem_filter.2 ⟨hg, ?_⟩⟩
    exact (continues_or_intervenes hlt hle hcontinues).resolve_right (hnone g hmem)

theorem reported_colliding (entries : List TemplateEntry) :
    Reported entries (colliding entries) where
  once := by
    have hsub : ((colliding entries).map Prod.fst).Sublist (byName entries) := by
      have hfirst := List.dropLast_sublist (byName entries)
      rw [← map_fst_neighbours] at hfirst
      exact (List.filter_sublist.map Prod.fst).trans hfirst
    have hnodup := (ascending_byName entries).sublist hsub
    rw [List.pairwise_map] at hnodup
    rw [List.Nodup, List.pairwise_map]
    exact hnodup.imp fun hlt => hlt.ne
  continued p hp := by
    obtain ⟨hp, hcontinues⟩ := List.mem_filter.1 hp
    obtain ⟨-, hmem, -⟩ := (ascending_byName entries).of_mem_neighbours hp
    exact ⟨List.mem_of_find?_eq_some (mem_byName.1 hmem), hcontinues⟩
  exact e := exists_colliding_iff

end Reported
end Namespaces

namespace TemplateTree
variable {t : TemplateTree} {n : NodeId} {kind : NodeKind}

theorem exists_fullName (h : kindOf t n = some .template) : ∃ name, fullName t n = .ok name := by
  have hn := allocated_of_kind h
  obtain ⟨node, hnode⟩ := exists_payloadOf hn
  rw [kindOf, hnode] at h
  cases node with
  | template name params =>
    rw [fullName, payload_eq hnode, enclosingFile, Tree.ancestors_eq hn]
    dsimp only [bind, Except.bind]
    split
    · exact ⟨_, rfl⟩
    · exact ⟨_, rfl⟩
  | _ => cases h

end TemplateTree

namespace Namespaces
open TemplateTree
variable {t : TemplateTree} {f n : NodeId} {file : FileEntry} {files : List NodeId}
  {nodes nodes' : List (NodeId × String)} {entries entries' : List TemplateEntry}

def fileOf (t : TemplateTree) (f : NodeId) : Option FileEntry :=
  match payloadOf t f with
  | some (.file path ns) => some ⟨f, path, ns⟩
  | _ => none

def templatesIn (t : TemplateTree) (file : FileEntry) : List (NodeId × String) :=
  ((t.preorder file.node).filter fun n => kindOf t n = some .template).map (·, file.path)

/-- The templates of the listed files, in the order of the files. -/
def templatesOf (t : TemplateTree) (files : List NodeId) : List (NodeId × String) :=
  (files.filterMap (fileOf t)).flatMap (templatesIn t)

structure Lists (t : TemplateTree) (nodes : List (NodeId × String))
    (entries : List TemplateEntry) : Prop where
  nodes : entries.map (fun e => (e.node, e.path)) = nodes
  named : ∀ e ∈ entries, fullName t e.node = .ok e.name

theorem Lists.append (h : Lists t nodes entries) (h' : Lists t nodes' entries') :
    Lists t (nodes ++ nodes') (entries ++ entries') where
  nodes := by rw [List.map_append, h.nodes, h'.nodes]
  named e he := (List.mem_append.1 he).elim (h.named e) (h'.named e)

theorem Lists.allocated (h : Lists t nodes entries) {e : TemplateEntry} (he : e ∈ entries) :
    t.Allocated e.node := by
  by_contra hn
  have hname := h.named e he
  rw [fullName, Tree.payload, Tree.slot_foreign hn] at hname
  cases hname

theorem Lists.exists_named (h : Lists t nodes entries) {path name : String} (hn : (n, path) ∈ nodes)
    (hname : fullName t n = .ok name) : ∃ e ∈ entries, e.name = name := by
  rw [← h.nodes] at hn
  obtain ⟨e, he, heq⟩ := List.mem_map.1 hn
  obtain ⟨rfl, -⟩ := Prod.mk.inj heq
  exact ⟨e, he, Except.ok.inj ((h.named e he).symm.trans hname)⟩

theorem fileEntry_eq (h : t.Allocated f) : fileEntry t f = .ok (fileOf t f) := by
  obtain ⟨node, hnode⟩ := exists_payloadOf h
  rw [fileEntry, fileOf, payload_eq hnode, hnode]
  cases node <;> rfl

theorem fileEntry_foreign (h : ¬t.Allocated f) : fileEntry t f = .error (.foreign f) := by
  rw [fileEntry, Tree.payload, Tree.slot_foreign h]
  rfl

theorem allocated_of_fileOf (h : fileOf t f = some file) : t.Allocated file.node := by
  rw [fileOf] at h
  split at h
  next hfile =>
    cases h
    exact allocated_of_payload hfile
  next => cases h

theorem run_fileEntries (h : ∀ f ∈ files, t.Allocated f) :
    files.mapM (fileEntry t) = .ok (files.map (fileOf t)) := by
  induction files with
  | nil => rfl
  | cons f rest ih =>
    obtain ⟨hf, hrest⟩ := List.forall_mem_cons.1 h
    rw [List.mapM_cons, fileEntry_eq hf, ih hrest]
    rfl

theorem run_fileEntries_foreign (h : ∃ f ∈ files, ¬t.Allocated f) :
    ∃ misuse, files.mapM (fileEntry t) = .error misuse := by
  induction files with
  | nil =>
    obtain ⟨f, hf, -⟩ := h
    cases hf
  | cons f rest ih =>
    rw [List.mapM_cons]
    by_cases hf : t.Allocated f
    · obtain ⟨g, hg, hforeign⟩ := h
      have hg : g ∈ rest := (List.mem_cons.1 hg).resolve_left fun heq => hforeign (heq ▸ hf)
      obtain ⟨misuse, hrest⟩ := ih ⟨g, hg, hforeign⟩
      rw [fileEntry_eq hf, hrest]
      exact ⟨misuse, rfl⟩
    · rw [fileEntry_foreign hf]
      exact ⟨_, rfl⟩

theorem exists_entries {nodes : List NodeId} (path : String)
    (h : ∀ n ∈ nodes, kindOf t n = some .template) :
    ∃ entries, (nodes.mapM fun n => do return (⟨← fullName t n, n, path⟩ : TemplateEntry)) =
      .ok entries ∧ Lists t (nodes.map (·, path)) entries := by
  induction nodes with
  | nil => exact ⟨[], rfl, rfl, fun _ he => nomatch he⟩
  | cons n rest ih =>
    obtain ⟨hn, hrest⟩ := List.forall_mem_cons.1 h
    obtain ⟨name, hname⟩ := exists_fullName hn
    obtain ⟨entries, hrun, hlists⟩ := ih hrest
    rw [List.mapM_cons, hname, hrun]
    refine ⟨⟨name, n, path⟩ :: entries, rfl, ?_, List.forall_mem_cons.2 ⟨hname, hlists.named⟩⟩
    rw [List.map_cons, List.map_cons, hlists.nodes]

theorem run_templateEntries (h : t.Allocated file.node) :
    ∃ entries, templateEntries t file = .ok entries ∧ Lists t (templatesIn t file) entries := by
  rw [templateEntries, ofKind_eq h .template]
  exact exists_entries file.path fun n hn => of_decide_eq_true (List.mem_filter.1 hn).2

theorem run_mapM_templateEntries {fs : List FileEntry} (h : ∀ file ∈ fs, t.Allocated file.node) :
    ∃ es, fs.mapM (templateEntries t) = .ok es ∧
      Lists t (fs.flatMap (templatesIn t)) es.flatten := by
  induction fs with
  | nil => exact ⟨[], rfl, rfl, fun _ he => nomatch he⟩
  | cons file rest ih =>
    obtain ⟨hfile, hrest⟩ := List.forall_mem_cons.1 h
    obtain ⟨entries, hrun, hlists⟩ := run_templateEntries hfile
    obtain ⟨es, hruns, hes⟩ := ih hrest
    rw [List.mapM_cons, hrun, hruns]
    exact ⟨entries :: es, rfl, hlists.append hes⟩

end Namespaces

namespace Checking
open Namespaces TemplateTree
variable {t : TemplateTree} {s : TypeStore} {report : Report} {n : NodeId} {files : List NodeId}

/-- The report on a template whose name is the beginning of the namespace of another one. -/
def collision (t : TemplateTree) (p : TemplateEntry × TemplateEntry) : Diagnostic :=
  .of .error (((t.slot? p.1.node).map (·.location)).getD .unknown) .namespaceCollision
    [p.1.name, namespacePart p.2.name, p.2.path]

theorem run_complainAt {e : TemplateEntry} (f : TemplateEntry) (h : t.Allocated e.node) :
    complainAt e.node .namespaceCollision [e.name, namespacePart f.name, f.path]
      ⟨t, s, report⟩ = (.ok (), ⟨t, s, report.extend [collision t (e, f)]⟩) := by
  obtain ⟨slot, hslot⟩ := Tree.slot?_eq_some h
  rw [complainAt, run_query_bind (a := slot.location), collision, hslot]
  · rfl
  · rw [Tree.location, Tree.slot, hslot]
    rfl

theorem run_forM_complainAt {pairs : List (TemplateEntry × TemplateEntry)}
    (h : ∀ p ∈ pairs, t.Allocated p.1.node) :
    (pairs.forM fun (e, f) => do
      if continues e.name f.name then
        complainAt e.node .namespaceCollision [e.name, namespacePart f.name, f.path])
      ⟨t, s, report⟩ = (.ok (), ⟨t, s, report.extend
        ((pairs.filter fun (e, f) => continues e.name f.name).map (collision t))⟩) := by
  induction pairs generalizing report with
  | nil =>
    rw [List.filter_nil, List.map_nil, Report.extend_nil]
    rfl
  | cons p rest ih =>
    obtain ⟨e, f⟩ := p
    obtain ⟨he, hrest⟩ := List.forall_mem_cons.1 h
    rw [List.forM, run_bind, List.filter_cons]
    dsimp only
    by_cases hcontinues : continues e.name f.name
    · rw [if_pos hcontinues, if_pos hcontinues, run_complainAt f he, List.map_cons]
      dsimp only
      rw [ih hrest, Report.extend_extend, List.singleton_append]
    · rw [if_neg hcontinues, if_neg hcontinues]
      exact ih hrest

theorem checkCollisions_foreign (h : ∃ f ∈ files, ¬t.Allocated f) :
    ∃ misuse, checkCollisions files ⟨t, s, report⟩ = (.error misuse, ⟨t, s, report⟩) := by
  obtain ⟨misuse, hrun⟩ := run_fileEntries_foreign h
  refine ⟨misuse, run_query_bind_error _ ?_⟩
  rw [hrun]
  rfl

theorem run_checkCollisions (h : ∀ f ∈ files, t.Allocated f) :
    ∃ entries, Lists t (templatesOf t files) entries ∧
      checkCollisions files ⟨t, s, report⟩ =
        (.ok (), ⟨t, s, report.extend ((colliding entries).map (collision t))⟩) := by
  have hfiles : ∀ file ∈ files.filterMap (fileOf t), t.Allocated file.node := by
    intro file hfile
    obtain ⟨f, -, hf⟩ := List.mem_filterMap.1 hfile
    exact allocated_of_fileOf hf
  obtain ⟨es, hrun, hlists⟩ := run_mapM_templateEntries hfiles
  refine ⟨es.flatten, hlists, ?_⟩
  have hnodes : ∀ p ∈ neighbours (byName es.flatten), t.Allocated p.1.node := by
    intro p hp
    obtain ⟨hmem, -⟩ := (ascending_byName es.flatten).of_mem_neighbours hp
    have hmem := List.mem_of_find?_eq_some (mem_byName.1 hmem)
    exact hlists.allocated hmem
  rw [checkCollisions, fileEntries, run_query_bind (a := files.filterMap (fileOf t)),
    run_query_bind (a := es.flatten), run_forM_complainAt hnodes]
  · rfl
  · rw [hrun]
    rfl
  · rw [run_fileEntries h]
    exact congrArg Except.ok List.filterMap_map

/-- The templates are reported whose name is the beginning of a namespace, except for those whose
name another one continues with a character before the dot. A foreign node is a misuse. -/
theorem checkCollisions_reports (t : TemplateTree) (files : List NodeId) (s : TypeStore)
    (report : Report) :
    ((∃ f ∈ files, ¬t.Allocated f) →
        ∃ misuse, checkCollisions files ⟨t, s, report⟩ = (.error misuse, ⟨t, s, report⟩)) ∧
      ((∀ f ∈ files, t.Allocated f) →
        ∃ entries pairs, Lists t (templatesOf t files) entries ∧ Reported entries pairs ∧
          checkCollisions files ⟨t, s, report⟩ =
            (.ok (), ⟨t, s, report.extend (pairs.map (collision t))⟩)) := by
  refine ⟨checkCollisions_foreign, fun h => ?_⟩
  obtain ⟨entries, hlists, hrun⟩ := run_checkCollisions h
  exact ⟨entries, colliding entries, hlists, reported_colliding entries, hrun⟩

def shop (name : String) : TemplateTree :=
  (Workspace.run [.add .unknown (.file "shop.soy" "shop"), .add .unknown (.template ".cart" []),
    .add .unknown (.template name []), .add .unknown (.file "items.soy" "shop.cart"),
    .add .unknown (.template ".item" []), .addChildren ⟨0⟩ [⟨1⟩, ⟨2⟩], .addChild ⟨3⟩ ⟨4⟩]).tree

theorem checkCollisions_reports_shop :
    ∃ entries pairs, Lists (shop ".total") (templatesOf (shop ".total") [⟨0⟩, ⟨3⟩]) entries ∧
      Reported entries pairs ∧
      checkCollisions [⟨0⟩, ⟨3⟩] ⟨shop ".total", Session.single.store, .empty⟩ =
        (.ok (), ⟨shop ".total", Session.single.store,
          Report.empty.extend (pairs.map (collision (shop ".total")))⟩) :=
  (checkCollisions_reports (shop ".total") [⟨0⟩, ⟨3⟩] Session.single.store .empty).2 (by decide)

theorem checkCollisions_misses :
    ¬∃ (entries : List TemplateEntry) (pairs : List (TemplateEntry × TemplateEntry)),
      Lists (shop ".cart$old") (templatesOf (shop ".cart$old") [⟨0⟩, ⟨3⟩]) entries ∧
      (∀ e, (∃ f, (e, f) ∈ pairs) ↔ entries.find? (·.name == e.name) = some e ∧
        ∃ f ∈ entries, continues e.name f.name) ∧
      checkCollisions [⟨0⟩, ⟨3⟩] ⟨shop ".cart$old", Session.single.store, .empty⟩ =
        (.ok (), ⟨shop ".cart$old", Session.single.store,
          Report.empty.extend (pairs.map (collision (shop ".cart$old")))⟩) := by
  rintro ⟨entries, pairs, hlists, hexact, hrun⟩
  have hreport : (checkCollisions [⟨0⟩, ⟨3⟩]
      ⟨shop ".cart$old", Session.single.store, .empty⟩).2.report = .empty := by decide +kernel
  have hpairs : pairs = [] := by
    rw [hrun] at hreport
    exact List.map_eq_nil_iff.1 (congrArg Report.diagnostics hreport)
  have hnodes : templatesOf (shop ".cart$old") [⟨0⟩, ⟨3⟩] =
      [(⟨1⟩, "shop.soy"), (⟨2⟩, "shop.soy"), (⟨4⟩, "items.soy")] := by decide +kernel
  have hcart : (⟨1⟩, "shop.soy") ∈ templatesOf (shop ".cart$old") [⟨0⟩, ⟨3⟩] := by
    rw [hnodes]
    decide
  have hitem : (⟨4⟩, "items.soy") ∈ templatesOf (shop ".cart$old") [⟨0⟩, ⟨3⟩] := by
    rw [hnodes]
    decide
  obtain ⟨e, he, hname⟩ : ∃ e ∈ entries, e.name = "shop.cart" := hlists.exists_named hcart rfl
  obtain ⟨f, hf, hname'⟩ : ∃ f ∈ entries, f.name = "shop.cart.item" :=
    hlists.exists_named hitem rfl
  obtain ⟨first, hfirst, heq⟩ := exists_mem_byName he
  rw [mem_byName] at hfirst
  have hcontinues : continues first.name f.name := by
    rw [heq, hname, hname']
    decide +kernel
  obtain ⟨g, hg⟩ := (hexact first).2 ⟨hfirst, f, hf, hcontinues⟩
  rw [hpairs] at hg
  cases hg

end Checking
end TemplateCheck
