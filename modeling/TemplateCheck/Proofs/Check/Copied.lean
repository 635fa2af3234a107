import TemplateCheck.Proofs.Check.Again
import TemplateCheck.Proofs.Check.Mirrors
import TemplateCheck.Proofs.Template.Copies
import TemplateCheck.Proofs.Types.Comparing

/-! Checking a copy of a file. If the tags of the file are paired with tags of the file only, the
checks come to the same diagnostics for the file and for its copy, whichever is checked first. -/

namespace TemplateCheck

theorem forall₂_of_map_some {α β : Type} {g : α → Option β} {l : List α} {l' : List β}
    (h : l'.map some = l.map g) : List.Forall₂ (fun a b => g a = some b) l l' := by
  rw [← List.forall₂_eq_eq_eq, List.forall₂_map_left_iff, List.forall₂_map_right_iff] at h
  exact h.flip.imp fun _ _ hab => hab.symm

namespace Copies
variable {t u : TemplateTree} {d : CopyState} {f c n n' : NodeId}

theorem mem_of_copyOf? {roots copies : List NodeId} (h : Copies t roots copies d u)
    (hn : d.copyOf? n = some n') : n ∈ roots.flatMap t.preorder := by
  by_contra hmem
  rw [h.others n hmem] at hn
  cases hn

theorem exists_copyOf? {roots copies : List NodeId} (h : Copies t roots copies d u)
    (hn : n ∈ roots.flatMap t.preorder) : ∃ n', d.copyOf? n = some n' := by
  obtain ⟨i, hi, rfl⟩ := List.mem_iff_getElem.1 hn
  exact ⟨_, h.numbers i hi⟩

theorem biUnique {roots copies : List NodeId} (h : Copies t roots copies d u) :
    Relator.BiUnique fun n n' => d.copyOf? n = some n' := by
  refine ⟨fun n n' m hn hn' => ?_, fun n m m' hm hm' => Option.some.inj (hm.symm.trans hm')⟩
  obtain ⟨i, hi, rfl⟩ := List.mem_iff_getElem.1 (h.mem_of_copyOf? hn)
  obtain ⟨j, hj, rfl⟩ := List.mem_iff_getElem.1 (h.mem_of_copyOf? hn')
  have hsum : NodeId.mk (t.size + i) = NodeId.mk (t.size + j) :=
    Option.some.inj (((h.numbers i hi).symm.trans hn).trans (hn'.symm.trans (h.numbers j hj)))
  obtain rfl : i = j := by simpa using hsum
  rfl

theorem not_allocated {roots copies : List NodeId} (h : Copies t roots copies d u)
    (hn : d.copyOf? n = some n') : ¬t.Allocated n' := by
  obtain ⟨i, hi, rfl⟩ := List.mem_iff_getElem.1 (h.mem_of_copyOf? hn)
  obtain rfl : NodeId.mk (t.size + i) = n' := Option.some.inj ((h.numbers i hi).symm.trans hn)
  exact Nat.not_lt.2 (Nat.le_add_right _ _)

theorem alike {node : Node} (hpairs : ∀ p ∈ (node.tag?.map (·.pairs)).getD [],
      ∃ p', d.copyOf? p = some p') :
    Node.Alike (fun n n' => d.copyOf? n = some n') node (node.mapReferences d.image) := by
  have hall (l : List NodeId) (hl : ∀ p ∈ l, ∃ p', d.copyOf? p = some p') :
      List.Forall₂ (fun n n' => d.copyOf? n = some n') l (l.map d.image) := by
    refine List.forall₂_map_right_iff.2 (List.forall₂_same.2 fun p hp => ?_)
    obtain ⟨p', hp'⟩ := hl p hp
    rw [CopyState.image, hp', Option.getD_some]
  cases node with
  | openTag tag => exact .openTag (hall tag.pairs hpairs)
  | closeTag tag => exact .closeTag (hall tag.pairs hpairs)
  | velog v => exact .velog v _
  | _ => exact .same rfl

theorem twins (h : Copies t [f] [c] d u) (ht : t.Shaped) (hu : u.Shaped) (hf : t.Allocated f)
    (hpairs : ∀ n ∈ t.preorder f, ∀ pairs, TemplateTree.taggedPairs t n = .ok pairs →
      ∀ p ∈ pairs, p ∈ t.preorder f) :
    Twins (fun n n' => d.copyOf? n = some n') f c u u := by
  have hroots : [f].flatMap t.preorder = t.preorder f := List.flatMap_singleton ..
  constructor
  case shaped => exact hu
  case shaped' => exact hu
  case size => rfl
  case tops =>
    have htops : [some c] = [d.copyOf? f] := h.tops
    exact (List.singleton_inj.1 htops).symm
  case unique => exact h.biUnique
  case slots =>
    intro n n' hn
    have hmem : n ∈ t.preorder f := hroots ▸ h.mem_of_copyOf? hn
    obtain ⟨slot, slot', hslot, hslot', hlocation, hpayload⟩ := h.contents n n' hn
    have hchildren := forall₂_of_map_some (h.children n n' hn)
    rw [Tree.childrenOf, hslot, Tree.childrenOf, hslot'] at hchildren
    refine ⟨slot, slot', (h.kept n (Tree.allocated_of_slot? hslot)).trans hslot, hslot',
      hlocation.symm, ?_, hchildren⟩
    rw [hpayload]
    refine alike fun p hp => h.exists_copyOf? (hroots ▸ hpairs n hmem _ ?_ p hp)
    rw [TemplateTree.taggedPairs, Tree.payload, Tree.slot, hslot]
    rfl
  case parents =>
    intro n n' hn hne
    have hmem : n ∈ t.preorder f := hroots ▸ h.mem_of_copyOf? hn
    have hparent := h.parent n n' hn
    rcases Relation.ReflTransGen.cases_tail ((ht.mem_preorder hf).1 hmem) with rfl | ⟨p, hfp, hp⟩
    · exact absurd rfl hne
    · have hpmem : p ∈ t.preorder f := (ht.mem_preorder hf).2 hfp
      obtain ⟨p', hp'⟩ := h.exists_copyOf? (hroots ▸ hpmem)
      have hp : t.parentOf n = some p := hp
      refine ⟨p, p', ?_, ?_, hp'⟩
      · rw [Tree.parentOf, h.kept n (Tree.allocated_of_parentOf hp)]
        exact hp
      · rw [hparent, if_neg (by simpa using hne), hp]
        exact hp'

end Copies

theorem exists_copySubtree {t : TemplateTree} {f : NodeId} (ht : t.Shaped) (hf : t.Allocated f) :
    ∃ c d u, Editing.copySubtree f t = (.ok c, u) ∧ Copies t [f] [c] d u := by
  obtain ⟨copies, u, d, hrun, hcopies⟩ :=
    exists_copies ht (List.forall_mem_singleton.2 hf) (List.pairwise_singleton _ f)
  rw [List.mapM_cons, run_bind] at hrun
  rw [Editing.copySubtree]
  generalize Copying.copy f (t, CopyState.empty) = r at hrun ⊢
  rcases r with ⟨misuse | c, u', d'⟩
  · cases hrun
  · obtain ⟨⟩ : ((Except.ok [c] : Except Misuse (List NodeId)), u', d') = (.ok copies, u, d) := hrun
    exact ⟨c, d, d.finish u, rfl, hcopies⟩

theorem TemplateTree.kindOf_eq (t : TemplateTree) (n : NodeId) :
    kindOf t n = (t.declarationOf n).map Declaration.kind := by
  rw [kindOf, payloadOf, Tree.declarationOf, Option.map_map, Option.map_map]
  refine congrArg (Option.map · (t.slot? n)) (funext fun slot => ?_)
  exact (Node.kind_declaration slot.payload).symm

namespace Checking
variable {registry : Registry} {M : NodeId → NodeId → Prop} {f c : NodeId} {t u : TemplateTree}
  {s : TypeStore}

theorem isFile_withTypes (changes : TypeChanges) :
    TemplateTree.isFile (t.withTypes changes) f = TemplateTree.isFile t f := by
  rw [TemplateTree.isFile, TemplateTree.isFile, TemplateTree.kindOf_eq, TemplateTree.kindOf_eq,
    Tree.declarationOf_withTypes]

def checkRest (f : NodeId) : Checking Unit := do
  [f].forM checkKeys
  checkNamespaces [] [f]

theorem mirrors_checkRest (h : Twins M f c t u) (hfile : TemplateTree.isFile t f) :
    Mirrors t u Eq (checkRest f) (checkRest c) := by
  have hkeys : Mirrors t u Eq ([f].forM checkKeys) ([c].forM checkKeys) :=
    (Mirrors.checkKeys h hfile).bind fun _ _ _ => .ret rfl
  have hfiles : List.Forall₂ M [f] [c] := .cons h.tops .nil
  refine hkeys.bind fun _ _ _ => (Mirrors.checkDuplicates h hfiles []).bind fun _ _ _ => ?_
  exact Mirrors.checkCollisions h hfiles hfile

theorem checkFiles_eq {t' : TemplateTree} {s' : TypeStore} {report report' : Report}
    (htypes : [f].forM (resolveTypes registry) ⟨t, s, .empty⟩ = (.ok (), ⟨t', s', report⟩))
    (hrest : checkRest f ⟨t', s', report⟩ = (.ok (), ⟨t', s', report'⟩)) :
    checkFiles registry [f] t s = (.ok report'.diagnostics, t', s') := by
  have hrun : run registry .standard [f] ⟨t, s, .empty⟩ = (.ok (), ⟨t', s', report'⟩) := by
    rw [Session.run_standard, run_bind, htypes]
    exact hrest
  rw [checkFiles, hrun]

theorem exists_checkFiles (h : Twins M f c t t) (hfile : TemplateTree.isFile t f)
    (hapart : ∀ {n m k}, M n m → ¬M m k) (hs : s.Sound) (hserves : registry.Serves False s) :
    ∃ ds t' s', checkFiles registry [f] t s = (.ok ds, t', s') ∧
      (checkFiles registry [c] t s).1 = .ok ds ∧ (checkFiles registry [c] t' s').1 = .ok ds := by
  have hechoes : Echoes registry True M ([f].forM (resolveTypes registry))
      ([c].forM (resolveTypes registry)) :=
    .forM (.cons h.tops .nil) fun n n' hn => .resolveTypes hn
  obtain ⟨x, changes, changes', s', ds, hrun⟩ := hechoes t t s h.outlines hs hserves
  obtain ⟨⟨⟩, rfl⟩ := hrun.succeeds trivial
  -- The check of `f` leaves the part of `c` alone: it is still a twin of the part of `f` in `t`.
  have hchanged : Twins M f c t (t.withTypes changes) := by
    refine h.withTypes_apart fun e he n hn => ?_
    obtain ⟨e', -, hsame, -⟩ := exists_of_mem_left hrun.same he
    exact hapart hn hsame
  obtain ⟨x, more, more', s₂, ds₂, hrun₂⟩ := hechoes t _ s hchanged.outlines hs hserves
  obtain ⟨rfl, htree, rfl, rfl⟩ := hrun.eq hrun₂
  have hfile' (more : TypeChanges) : TemplateTree.isFile (t.withTypes more) f :=
    (isFile_withTypes more).trans hfile
  obtain ⟨_, _, report, hfirst, hsecond, -⟩ := mirrors_checkRest (h.withTypes hrun.same)
    (hfile' changes) s' (Report.empty.extend ds)
  obtain ⟨_, _, report₂, hfirst₂, hlater, -⟩ := mirrors_checkRest (hchanged.withTypes hrun₂.same)
    (hfile' more) s' (Report.empty.extend ds)
  rw [← htree, hfirst] at hfirst₂
  obtain rfl : report = report₂ := congrArg (fun r => r.2.report) hfirst₂
  refine ⟨report.diagnostics, _, s', checkFiles_eq (hrun.first .empty) hfirst, ?_, ?_⟩
  · rw [checkFiles_eq (hrun.second .empty) hsecond]
  · rw [checkFiles_eq (hrun₂.again s' hrun₂.sound (.refl s') .empty) hlater]

end Checking

namespace Session
open Checking
variable {σ : Session} {registry : Registry} {f : NodeId}

/-- A file with pairs of tags inside it alone can be copied, and the checks do not tell it from its
copy, neither apart nor one behind the other. -/
theorem checkFiles_copySubtree (hσ : σ.Reached)
    (haliases : ∀ entry ∈ registry.aliases, entry.2 ∈ σ.issued)
    (operations : List (Operation Node))
    (hfile : TemplateTree.isFile (Workspace.run operations).tree f)
    (hpairs : ∀ n ∈ (Workspace.run operations).tree.preorder f, ∀ pairs,
      TemplateTree.taggedPairs (Workspace.run operations).tree n = .ok pairs →
        ∀ p ∈ pairs, p ∈ (Workspace.run operations).tree.preorder f) :
    ∃ c tree ds, Editing.copySubtree f (Workspace.run operations).tree = (.ok c, tree) ∧
      (checkFiles registry [f] tree σ.store).1 = .ok ds ∧
      (checkFiles registry [c] tree σ.store).1 = .ok ds ∧
      (checkFiles registry [c] (checkFiles registry [f] tree σ.store).2.1
        (checkFiles registry [f] tree σ.store).2.2).1 = .ok ds ∧
      (checkFiles registry [f] (checkFiles registry [c] tree σ.store).2.1
        (checkFiles registry [c] tree σ.store).2.2).1 = .ok ds := by
  have hshaped := Workspace.shaped_run operations
  have hsound := hσ.valid.sound
  have hserves := serves_of_issued hσ haliases
  generalize (Workspace.run operations).tree = t at hfile hpairs hshaped ⊢
  have hf : t.Allocated f := by
    by_contra hf
    rw [TemplateTree.isFile, TemplateTree.kindOf, TemplateTree.payloadOf,
      Tree.slot?_eq_none hf] at hfile
    cases hfile
  obtain ⟨c, d, u, hcopy, hcopies⟩ := exists_copySubtree hshaped hf
  have hshaped' : u.Shaped := by
    have hkeeps := Editing.keepsShape_copySubtree f t hshaped
    rwa [hcopy] at hkeeps
  have htwins := hcopies.twins hshaped hshaped' hf hpairs
  have hfile' : TemplateTree.isFile u f := by
    rwa [TemplateTree.isFile, TemplateTree.kindOf, TemplateTree.payloadOf, hcopies.kept f hf]
  have hcopyFile : TemplateTree.isFile u c := by
    rwa [TemplateTree.isFile, ← htwins.kindOf htwins.tops]
  have hapart {n m k : NodeId} (hm : d.copyOf? n = some m) (hk : d.copyOf? m = some k) : False := by
    refine hcopies.not_allocated hm (hshaped.allocated_preorder hf ?_)
    rw [← List.flatMap_singleton t.preorder f]
    exact hcopies.mem_of_copyOf? hk
  obtain ⟨ds, t₁, s₁, hfirst, hcopied, hlater⟩ :=
    exists_checkFiles htwins hfile' hapart hsound hserves
  obtain ⟨ds', t₂, s₂, hfirst', -, hlater'⟩ :=
    exists_checkFiles htwins.flip hcopyFile (fun hm hk => hapart hk hm) hsound hserves
  have hds : ds = ds' := by
    rw [hfirst'] at hcopied
    exact (Except.ok.inj hcopied).symm
  refine ⟨c, u, ds, hcopy, ?_, hcopied, ?_, ?_⟩
  · rw [hfirst]
  · rw [hfirst]
    exact hlater
  · rw [hfirst', hds]
    exact hlater'

theorem checkFiles_copySubtree_cart :
    single.Reached ∧ (∀ entry ∈ idRegistry.aliases, entry.2 ∈ single.issued) ∧
      TemplateTree.isFile (Workspace.run cartFile).tree ⟨0⟩ ∧
      ∃ c tree ds, Editing.copySubtree ⟨0⟩ (Workspace.run cartFile).tree = (.ok c, tree) ∧
        (checkFiles idRegistry [⟨0⟩] tree single.store).1 = .ok ds ∧
        (checkFiles idRegistry [c] tree single.store).1 = .ok ds ∧
        (checkFiles idRegistry [c] (checkFiles idRegistry [⟨0⟩] tree single.store).2.1
          (checkFiles idRegistry [⟨0⟩] tree single.store).2.2).1 = .ok ds ∧
        (checkFiles idRegistry [⟨0⟩] (checkFiles idRegistry [c] tree single.store).2.1
          (checkFiles idRegistry [c] tree single.store).2.2).1 = .ok ds := by
  have hreached : single.Reached := ⟨_, .refl⟩
  have haliases : ∀ entry ∈ idRegistry.aliases, entry.2 ∈ single.issued := by decide
  have hfile : TemplateTree.isFile (Workspace.run cartFile).tree ⟨0⟩ := by decide
  have hinside : ∀ n ∈ (Workspace.run cartFile).tree.preorder ⟨0⟩,
      (TemplateTree.taggedPairs (Workspace.run cartFile).tree n).toOption.all fun pairs =>
        pairs.all fun p => p ∈ (Workspace.run cartFile).tree.preorder ⟨0⟩ := by decide
  refine ⟨hreached, haliases, hfile,
    checkFiles_copySubtree hreached haliases cartFile hfile fun n hn pairs hpairs p hp => ?_⟩
  have hall := hinside n hn
  rw [hpairs] at hall
  simpa using List.all_eq_true.1 hall p hp

end Session
end TemplateCheck
