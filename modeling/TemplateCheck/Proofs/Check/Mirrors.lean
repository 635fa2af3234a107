import TemplateCheck.Check.Run
import TemplateCheck.Proofs.Check.Twins

/-! Checks of corresponding parts of trees. Checks that only report come to the same complaints in
both parts, since they ask for nothing that the parts do not share. -/

namespace TemplateCheck

theorem forall₂_find? {α β : Type} {R : α → β → Prop} {p : α → Bool} {q : β → Bool}
    {l : List α} {l' : List β} (h : List.Forall₂ R l l') (hpq : ∀ a b, R a b → p a = q b) :
    Option.Rel R (l.find? p) (l'.find? q) := by
  induction h with
  | nil => exact .none
  | @cons a b _ _ hab _ ih =>
    rw [List.find?_cons, List.find?_cons, hpq a b hab]
    cases q b with
    | true => exact .some hab
    | false => exact ih

namespace Order
variable {α β : Type} {R : α → β → Prop} {le : α → α → Bool} {le' : β → β → Bool}
  {a : α} {b : β} {l : List α} {l' : List β}

theorem forall₂_insertBy (hle : ∀ {a a' b b'}, R a b → R a' b' → le a a' = le' b b')
    (h : List.Forall₂ R l l') (hab : R a b) :
    List.Forall₂ R (insertBy le a l) (insertBy le' b l') := by
  induction h with
  | nil => exact .cons hab .nil
  | @cons c d _ _ hcd htail ih =>
    rw [insertBy, insertBy, hle hab hcd]
    cases le' b d with
    | true => exact .cons hab (.cons hcd htail)
    | false => exact .cons hcd ih

theorem forall₂_sortBy (hle : ∀ {a a' b b'}, R a b → R a' b' → le a a' = le' b b')
    (h : List.Forall₂ R l l') : List.Forall₂ R (sortBy le l) (sortBy le' l') := by
  induction h with
  | nil => exact .nil
  | cons hab _ ih => exact forall₂_insertBy hle ih hab

end Order

namespace Answers
variable {α β γ δ : Type} {complete : Prop} {R : α → β → Prop} {S : γ → δ → Prop}

theorem bind {x : Except Misuse α} {y : Except Misuse β} {f : α → Except Misuse γ}
    {g : β → Except Misuse δ} (h : Answers complete R x y)
    (hfg : ∀ a b, R a b → Answers complete S (f a) (g b)) :
    Answers complete S (x >>= f) (y >>= g) := by
  cases h with
  | ok h => exact hfg _ _ h
  | error misuse h => exact .error misuse h

theorem mapM {f : α → Except Misuse γ} {g : β → Except Misuse δ} {l : List α} {l' : List β}
    (h : List.Forall₂ R l l') (hfg : ∀ a b, R a b → Answers complete S (f a) (g b)) :
    Answers complete (List.Forall₂ S) (l.mapM f) (l'.mapM g) := by
  induction h with
  | nil => exact .ok .nil
  | cons hab _ ih =>
    rw [List.mapM_cons, List.mapM_cons]
    exact (hfg _ _ hab).bind fun c d hcd => ih.bind fun cs ds hs => .ok (.cons hcd hs)

end Answers

namespace Twins
variable {M : NodeId → NodeId → Prop} {top top' n n' : NodeId} {t u : TemplateTree}

theorem payloadOf (h : Twins M top top' t u) (hn : M n n') :
    ∃ node node', TemplateTree.payloadOf t n = some node ∧
      TemplateTree.payloadOf u n' = some node' ∧ Node.Alike M node node' := by
  obtain ⟨slot, slot', hslot, hslot', htwins⟩ := h.slots hn
  exact ⟨slot.payload, slot'.payload, congrArg _ hslot, congrArg _ hslot', htwins.payload⟩

theorem payload (h : Twins M top top' t u) (hn : M n n') :
    Answers True (Node.Alike M) (t.payload n) (u.payload n') := by
  obtain ⟨slot, slot', hslot, hslot', htwins⟩ := h.slots hn
  rw [Tree.payload, Tree.payload, Tree.slot, Tree.slot, hslot, hslot']
  exact .ok htwins.payload

theorem location (h : Twins M top top' t u) (hn : M n n') :
    Answers True Eq (t.location n) (u.location n') := by
  obtain ⟨slot, slot', hslot, hslot', htwins⟩ := h.slots hn
  rw [Tree.location, Tree.location, Tree.slot, Tree.slot, hslot, hslot']
  exact .ok htwins.location

theorem parent (h : Twins M top top' t u) (hn : M n n') (hne : n ≠ top) :
    Answers True (Option.Rel M) (t.parent n) (u.parent n') := by
  obtain ⟨p, p', hp, hp', hpp'⟩ := h.parents hn hne
  rw [Tree.parent_eq (Tree.allocated_of_parentOf hp), hp,
    Tree.parent_eq (Tree.allocated_of_parentOf hp'), hp']
  exact .ok (.some hpp')

theorem taggedPairs (h : Twins M top top' t u) (hn : M n n') :
    Answers True (List.Forall₂ M) (TemplateTree.taggedPairs t n)
      (TemplateTree.taggedPairs u n') := by
  rw [TemplateTree.taggedPairs, TemplateTree.taggedPairs]
  exact (h.payload hn).bind fun node node' halike => .ok halike.pairs

theorem attributeNamed (h : Twins M top top' t u) (hn : M n n') (name : String) :
    Answers True (Option.Rel M) (TemplateTree.attributeNamed t n name)
      (TemplateTree.attributeNamed u n' name) := by
  have hchildren : Answers True (List.Forall₂ M) (t.children n) (u.children n') := by
    obtain ⟨slot, slot', hslot, hslot', htwins⟩ := h.slots hn
    rw [Tree.children, Tree.children, Tree.slot, Tree.slot, hslot, hslot']
    exact .ok htwins.children
  rw [TemplateTree.attributeNamed, TemplateTree.attributeNamed]
  refine hchildren.bind fun l l' hl => .ok (forall₂_find? hl fun m m' hm => ?_)
  obtain ⟨node, node', hnode, hnode', halike⟩ := h.payloadOf hm
  rw [hnode, hnode']
  cases halike <;> rfl

theorem kindOf (h : Twins M top top' t u) (hn : M n n') :
    TemplateTree.kindOf t n = TemplateTree.kindOf u n' := by
  obtain ⟨node, node', hnode, hnode', halike⟩ := h.payloadOf hn
  rw [TemplateTree.kindOf, TemplateTree.kindOf, hnode, hnode', Option.map_some, Option.map_some,
    halike.kind_eq]

theorem payload_of_kind (h : Twins M top top' t u) (hn : M n n') {kind : NodeKind}
    (hkind : TemplateTree.kindOf t n = some kind) :
    Answers True (fun node node' => Node.Alike M node node' ∧ node.kind = kind) (t.payload n)
      (u.payload n') := by
  obtain ⟨slot, slot', hslot, hslot', htwins⟩ := h.slots hn
  rw [TemplateTree.kindOf, TemplateTree.payloadOf, hslot] at hkind
  rw [Tree.payload, Tree.payload, Tree.slot, Tree.slot, hslot, hslot']
  exact .ok ⟨htwins.payload, Option.some.inj hkind⟩

theorem ofKind (h : Twins M top top' t u) (hn : M n n') (kind : NodeKind) :
    Answers True (List.Forall₂ fun m m' => TemplateTree.kindOf t m = some kind ∧ M m m')
      (TemplateTree.ofKind t n kind) (TemplateTree.ofKind u n' kind) := by
  have hanswers := h.outlines.ofKind hn kind
  have hkind : ∀ l, TemplateTree.ofKind t n kind = .ok l →
      ∀ m ∈ l, TemplateTree.kindOf t m = some kind := by
    obtain ⟨slot, slot', hslot, -⟩ := h.slots hn
    rw [TemplateTree.ofKind_eq (Tree.allocated_of_slot? hslot)]
    rintro _ ⟨⟩ m hm
    exact of_decide_eq_true (List.mem_filter.1 hm).2
  generalize TemplateTree.ofKind t n kind = x at hanswers hkind ⊢
  generalize TemplateTree.ofKind u n' kind = y at hanswers ⊢
  cases hanswers with
  | ok hl => exact .ok ((List.forall₂_and_left _ _).2 ⟨hkind _ rfl, hl⟩)
  | error misuse hcomplete => exact absurd trivial hcomplete

theorem nearestFile (h : Twins M top top' t u) (htop : TemplateTree.isFile t top)
    (hn : M n n') :
    Option.Rel M ((n :: t.ancestorsOf n).find? (TemplateTree.isFile t))
      ((n' :: u.ancestorsOf n').find? (TemplateTree.isFile u)) := by
  induction h.shaped.acc n generalizing n' with
  | intro n _ ih =>
    have hfile : TemplateTree.isFile t n = TemplateTree.isFile u n' := by
      rw [TemplateTree.isFile, TemplateTree.isFile, h.kindOf hn]
    rw [List.find?_cons, List.find?_cons, ← hfile]
    cases hisFile : TemplateTree.isFile t n with
    | true => exact .some hn
    | false =>
      have hne : n ≠ top := by
        rintro rfl
        rw [htop] at hisFile
        cases hisFile
      obtain ⟨p, p', hp, hp', hpp'⟩ := h.parents hn hne
      rw [h.shaped.ancestorsOf_child hp, h.shaped'.ancestorsOf_child hp']
      exact ih p hp hpp'

theorem enclosingFile (h : Twins M top top' t u) (htop : TemplateTree.isFile t top)
    (hn : M n n') :
    Answers True (Option.Rel M) (TemplateTree.enclosingFile t n)
      (TemplateTree.enclosingFile u n') := by
  obtain ⟨slot, slot', hslot, hslot', -⟩ := h.slots hn
  rw [TemplateTree.enclosingFile, TemplateTree.enclosingFile,
    Tree.ancestors_eq (Tree.allocated_of_slot? hslot),
    Tree.ancestors_eq (Tree.allocated_of_slot? hslot')]
  exact .ok (h.nearestFile htop hn)

theorem namespaceOf (h : Twins M top top' t u) (hn : M n n') :
    TemplateTree.namespaceOf t n = TemplateTree.namespaceOf u n' := by
  obtain ⟨node, node', hnode, hnode', halike⟩ := h.payloadOf hn
  rw [TemplateTree.namespaceOf, TemplateTree.namespaceOf, hnode, hnode']
  cases halike <;> rfl

theorem fullName (h : Twins M top top' t u) (htop : TemplateTree.isFile t top) (hn : M n n')
    (hkind : TemplateTree.kindOf t n = some .template) :
    Answers True Eq (TemplateTree.fullName t n) (TemplateTree.fullName u n') := by
  rw [TemplateTree.fullName, TemplateTree.fullName]
  refine (h.payload_of_kind hn hkind).bind fun node node' hnode => ?_
  obtain ⟨halike, hkind⟩ := hnode
  cases halike with
  | @same node _ =>
    cases node with
    | template name params =>
      dsimp only
      split
      · refine (h.enclosingFile htop hn).bind fun file file' hfile => ?_
        cases hfile with
        | none => exact .ok rfl
        | some hg =>
          rw [Option.map_some, Option.map_some, h.namespaceOf hg]
          exact .ok rfl
      · exact .ok rfl
    | _ => cases hkind
  | _ => cases hkind

end Twins

section Entries
open Namespaces
variable {M : NodeId → NodeId → Prop} {top top' n n' : NodeId} {t u : TemplateTree}

structure SameFile (M : NodeId → NodeId → Prop) (file file' : FileEntry) : Prop where
  node : M file.node file'.node
  path : file.path = file'.path
  fileNamespace : file.fileNamespace = file'.fileNamespace

structure SameTemplate (M : NodeId → NodeId → Prop) (e e' : TemplateEntry) : Prop where
  name : e.name = e'.name
  node : M e.node e'.node
  path : e.path = e'.path

theorem Twins.fileEntry (h : Twins M top top' t u) (hn : M n n') :
    Answers True (Option.Rel (SameFile M)) (fileEntry t n) (fileEntry u n') := by
  refine (h.payload hn).bind fun node node' halike => ?_
  cases halike with
  | @same node _ =>
    cases node with
    | file path ns => exact .ok (.some ⟨hn, rfl, rfl⟩)
    | _ => exact .ok .none
  | _ => exact .ok .none

theorem otherPaths_eq {files files' : List FileEntry} {file file' : FileEntry}
    (hfiles : List.Forall₂ (SameFile M) files files') (hfile : SameFile M file file') :
    otherPaths files file = otherPaths files' file' := by
  have hpaths (ns : String) : pathsOf files ns = pathsOf files' ns := by
    rw [pathsOf, pathsOf]
    congr 1
    rw [← List.forall₂_eq_eq_eq]
    refine List.rel_map (fun _ _ hfile => hfile.path) (List.rel_filter (fun a b hfile => ?_) hfiles)
    exact Bool.eq_iff_iff.1 (congrArg (· == ns) hfile.fileNamespace)
  rw [otherPaths, otherPaths, hfile.fileNamespace, hfile.path, hpaths]

theorem Twins.templateEntries (h : Twins M top top' t u) (htop : TemplateTree.isFile t top)
    {file file' : FileEntry} (hfile : SameFile M file file') :
    Answers True (List.Forall₂ (SameTemplate M)) (templateEntries t file)
      (templateEntries u file') := by
  refine (h.ofKind hfile.node .template).bind fun l l' hl => Answers.mapM hl fun n n' hn => ?_
  exact (h.fullName htop hn.2 hn.1).bind fun name name' hname => .ok ⟨hname, hn.2, hfile.path⟩

theorem forall₂_dropRepeated {last last' : TemplateEntry} {es es' : List TemplateEntry}
    (hes : List.Forall₂ (SameTemplate M) es es') (hlast : SameTemplate M last last') :
    List.Forall₂ (SameTemplate M) (dropRepeated last es) (dropRepeated last' es') := by
  induction hes generalizing last last' with
  | nil => exact .nil
  | @cons e e' _ _ he _ ih =>
    rw [dropRepeated, dropRepeated, he.name, hlast.name]
    split
    · exact ih hlast
    · exact .cons he (ih he)

theorem forall₂_byName {es es' : List TemplateEntry}
    (hes : List.Forall₂ (SameTemplate M) es es') :
    List.Forall₂ (SameTemplate M) (byName es) (byName es') := by
  have hsorted : List.Forall₂ (SameTemplate M)
      (Order.sortBy (fun e f => decide (e.name ≤ f.name)) es)
      (Order.sortBy (fun e f => decide (e.name ≤ f.name)) es') :=
    Order.forall₂_sortBy (fun ha hb => by rw [ha.name, hb.name]) hes
  rw [byName, byName]
  generalize Order.sortBy (fun e f => decide (e.name ≤ f.name)) es = sorted at hsorted ⊢
  generalize Order.sortBy (fun e f => decide (e.name ≤ f.name)) es' = sorted' at hsorted ⊢
  cases hsorted with
  | nil => exact .nil
  | cons he hrest => exact .cons he (forall₂_dropRepeated hrest he)

theorem forall₂_neighbours {es es' : List TemplateEntry}
    (hes : List.Forall₂ (SameTemplate M) es es') :
    List.Forall₂ (fun p p' => SameTemplate M p.1 p'.1 ∧ SameTemplate M p.2 p'.2)
      (neighbours es) (neighbours es') := by
  induction hes with
  | nil => exact .nil
  | cons he hrest ih =>
    cases hrest with
    | nil => exact .nil
    | cons hf _ => exact .cons ⟨he, hf⟩ ih

end Entries

namespace Checking
variable {α β γ δ : Type} {M : NodeId → NodeId → Prop} {top top' n n' : NodeId}
  {t u : TemplateTree}

def Mirrors (t u : TemplateTree) (R : α → β → Prop) (check : Checking α) (check' : Checking β) :
    Prop :=
  ∀ s report, ∃ a b report', check ⟨t, s, report⟩ = (.ok a, ⟨t, s, report'⟩) ∧
    check' ⟨u, s, report⟩ = (.ok b, ⟨u, s, report'⟩) ∧ R a b

namespace Mirrors
variable {R : α → β → Prop} {S : γ → δ → Prop}

theorem ret {a : α} {b : β} (h : R a b) : Mirrors t u R (pure a) (pure b) :=
  fun _ report => ⟨a, b, report, rfl, rfl, h⟩

theorem bind {check : Checking α} {check' : Checking β} {f : α → Checking γ} {g : β → Checking δ}
    (h : Mirrors t u R check check') (hfg : ∀ a b, R a b → Mirrors t u S (f a) (g b)) :
    Mirrors t u S (check >>= f) (check' >>= g) := by
  intro s report
  obtain ⟨a, b, report₁, hrun, hrun', hab⟩ := h s report
  obtain ⟨c, d, report₂, hnext, hnext', hcd⟩ := hfg a b hab s report₁
  refine ⟨c, d, report₂, ?_, ?_, hcd⟩
  · rw [run_bind, hrun]
    exact hnext
  · rw [run_bind, hrun']
    exact hnext'

theorem query {question : TemplateTree → Except Misuse α}
    {question' : TemplateTree → Except Misuse β}
    (h : Answers True R (question t) (question' u)) :
    Mirrors t u R (query question) (Checking.query question') := by
  intro s report
  rw [run_query, run_query]
  generalize question t = x at h ⊢
  generalize question' u = y at h ⊢
  cases h with
  | @ok a b hab => exact ⟨a, b, report, rfl, rfl, hab⟩
  | error misuse hcomplete => exact absurd trivial hcomplete

theorem read {f g : CheckState → Checking γ} {S : γ → γ → Prop}
    (hfg : ∀ s report, Mirrors t u S (f ⟨t, s, report⟩) (g ⟨u, s, report⟩)) :
    Mirrors t u S (getThe CheckState >>= f) (getThe CheckState >>= g) :=
  fun s report => hfg s report s report

theorem forM {f : α → Checking Unit} {g : β → Checking Unit} {l : List α} {l' : List β}
    (h : List.Forall₂ R l l') (hfg : ∀ a b, R a b → Mirrors t u Eq (f a) (g b)) :
    Mirrors t u Eq (l.forM f) (l'.forM g) := by
  induction h with
  | nil => exact ret rfl
  | cons hab _ ih => exact (hfg _ _ hab).bind fun _ _ _ => ih

theorem branch {c c' : Prop} [Decidable c] [Decidable c'] {yes no : Checking α}
    {yes' no' : Checking β} (hc : c ↔ c') (hyes : Mirrors t u R yes yes')
    (hno : Mirrors t u R no no') :
    Mirrors t u R (if c then yes else no) (if c' then yes' else no') := by
  by_cases hpassed : c
  · rwa [if_pos hpassed, if_pos (hc.1 hpassed)]
  · rwa [if_neg hpassed, if_neg (hc.not.1 hpassed)]

variable (h : Twins M top top' t u)
include h

theorem complainAt (hn : M n n') (message : Message) (arguments : List String) :
    Mirrors t u Eq (complainAt n message arguments)
      (Checking.complainAt n' message arguments) := by
  refine (query (h.location hn)).bind fun location location' hlocation => ?_
  subst hlocation
  exact fun s report => ⟨(), (), _, rfl, rfl, rfl⟩

theorem openTagAround (hn : M n n') (hne : n ≠ top) :
    Mirrors t u (Option.Rel M) (openTagAround n) (Checking.openTagAround n') := by
  refine (query (h.parent hn hne)).bind fun parent parent' hparent => ?_
  cases hparent with
  | none => exact ret .none
  | @some p p' hp =>
    refine (query (h.payload hp)).bind fun node node' halike => ?_
    rw [halike.kind_eq]
    by_cases hkind : node'.kind = .openTag
    · rw [if_pos hkind, if_pos hkind]
      exact ret (.some hp)
    · rw [if_neg hkind, if_neg hkind]
      exact ret .none

theorem checkPlace (hn : M n n') (hne : n ≠ top) :
    Mirrors t u Eq (checkPlace n) (Checking.checkPlace n') := by
  refine (openTagAround h hn hne).bind fun tag tag' htag => ?_
  cases htag with
  | none => exact complainAt h hn _ _
  | @some tag tag' htag =>
    refine (query (h.taggedPairs htag)).bind fun pairs pairs' hpairs => ?_
    cases hpairs with
    | nil => exact ret rfl
    | @cons close close' _ _ hclose hrest =>
      cases hrest with
      | nil =>
        refine (query (h.taggedPairs hclose)).bind fun back back' hback => ?_
        have hpaired : back = [tag] ↔ back' = [tag'] :=
          Relator.rel_eq h.unique.forall₂ hback (.cons htag .nil)
        exact branch hpaired (ret rfl) (complainAt h htag _ _)
      | cons => exact complainAt h hn _ _

theorem checkNoKeyAttribute (hn : M n n') (hne : n ≠ top) :
    Mirrors t u Eq (checkNoKeyAttribute n) (Checking.checkNoKeyAttribute n') := by
  refine (openTagAround h hn hne).bind fun tag tag' htag => ?_
  cases htag with
  | none => exact ret rfl
  | some htag =>
    refine (query (h.attributeNamed htag "key")).bind fun found found' hfound => ?_
    cases hfound with
    | none => exact ret rfl
    | some hfound => exact complainAt h hfound _ _

theorem checkKeyType (hn : M n n') (hkind : TemplateTree.kindOf t n = some .key) :
    Mirrors t u Eq (checkKeyType n) (Checking.checkKeyType n') := by
  refine (query (h.payload_of_kind hn hkind)).bind fun node node' hnode => ?_
  obtain ⟨halike, hkind⟩ := hnode
  cases halike with
  | @same node _ =>
    cases node with
    | key e => exact read fun s report => branch Iff.rfl (ret rfl) (complainAt h hn _ _)
    | _ => cases hkind
  | _ => cases hkind

theorem checkKeys (htop : TemplateTree.isFile t top) :
    Mirrors t u Eq (checkKeys top) (Checking.checkKeys top') := by
  refine (query (h.ofKind h.tops .key)).bind fun keys keys' hkeys => forM hkeys fun n n' hn => ?_
  obtain ⟨hkind, hn⟩ := hn
  have hne : n ≠ top := by
    rintro rfl
    rw [TemplateTree.isFile, hkind] at htop
    cases htop
  refine (checkPlace h hn hne).bind fun _ _ _ => ?_
  refine (checkNoKeyAttribute h hn hne).bind fun _ _ _ => ?_
  exact checkKeyType h hn hkind

theorem fileEntries {files files' : List NodeId} (hfiles : List.Forall₂ M files files') :
    Mirrors t u (List.Forall₂ (SameFile M)) (fileEntries files)
      (Checking.fileEntries files') := by
  refine query ((Answers.mapM hfiles fun n n' hn => h.fileEntry hn).bind fun es es' hes => ?_)
  exact .ok (List.rel_filterMap (fun _ _ he => he) hes)

theorem checkDuplicates {files files' : List NodeId} (hfiles : List.Forall₂ M files files')
    (exempt : List String) :
    Mirrors t u Eq (checkDuplicates exempt files) (Checking.checkDuplicates exempt files') := by
  refine (fileEntries h hfiles).bind fun entries entries' hentries => ?_
  refine forM hentries fun file file' hfile => ?_
  dsimp only
  rw [otherPaths_eq hentries hfile]
  refine branch Iff.rfl (ret rfl) ?_
  refine (query (h.location hfile.node)).bind fun location location' hlocation => ?_
  subst hlocation
  rw [hfile.fileNamespace]
  exact fun s report => ⟨(), (), _, rfl, rfl, rfl⟩

theorem checkCollisions {files files' : List NodeId} (hfiles : List.Forall₂ M files files')
    (htop : TemplateTree.isFile t top) :
    Mirrors t u Eq (checkCollisions files) (Checking.checkCollisions files') := by
  refine (fileEntries h hfiles).bind fun entries entries' hentries => ?_
  refine (query (R := List.Forall₂ (SameTemplate M)) ?_).bind fun es es' hes => ?_
  · exact (Answers.mapM hentries fun e e' he => h.templateEntries htop he).bind
      fun _ _ hes => .ok (List.rel_flatten hes)
  refine forM (forall₂_neighbours (forall₂_byName hes)) fun p p' hp => ?_
  dsimp only
  rw [hp.1.name, hp.2.name, hp.2.path]
  exact branch Iff.rfl (complainAt h hp.1.node _ _) (ret rfl)

end Mirrors
end Checking
end TemplateCheck
