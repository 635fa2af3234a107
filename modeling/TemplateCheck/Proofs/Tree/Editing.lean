import TemplateCheck.Proofs.Running
import TemplateCheck.Proofs.Tree.Shape
import TemplateCheck.Tree.Edit

/-! Edits keep the shape of a tree, whether they succeed or end in a misuse. All of them come down
to two changes of links: one node that has no parent is put under another, or some nodes are taken
away from their parents. -/

namespace TemplateCheck

namespace Tree
variable {P : Type} {t t' : Tree P} {n m p c x : NodeId} {l : List NodeId}

def withChildren (t : Tree P) (n : NodeId) (l : List NodeId) : Tree P :=
  t.update n fun slot => { slot with children := l }

def withParent (t : Tree P) (n : NodeId) (p : Option NodeId) : Tree P :=
  t.update n fun slot => { slot with parent := p }

theorem slot?_update {change : Slot P → Slot P} :
    (t.update n change).slot? m = if n = m then (t.slot? m).map change else t.slot? m := by
  rw [slot?, update, Array.getElem?_modify, ← slot?]
  exact if_congr ⟨fun h => NodeId.index_injective h, congrArg NodeId.index⟩ rfl rfl

@[simp] theorem size_update {change : Slot P → Slot P} : (t.update n change).size = t.size :=
  Array.size_modify

theorem parentOf_update {change : Slot P → Slot P}
    (h : ∀ slot, (change slot).parent = slot.parent) :
    (t.update n change).parentOf m = t.parentOf m := by
  rw [parentOf, slot?_update, parentOf]
  split
  · cases t.slot? m with
    | none => rfl
    | some slot => exact h slot
  · rfl

theorem childrenOf_update {change : Slot P → Slot P}
    (h : ∀ slot, (change slot).children = slot.children) :
    (t.update n change).childrenOf m = t.childrenOf m := by
  rw [childrenOf, slot?_update, childrenOf]
  by_cases hm : n = m
  · rw [if_pos hm]
    cases t.slot? m with
    | none => rfl
    | some slot => exact h slot
  · rw [if_neg hm]

@[simp] theorem size_withChildren : (t.withChildren n l).size = t.size := size_update

@[simp] theorem size_withParent {p : Option NodeId} : (t.withParent n p).size = t.size :=
  size_update

@[simp] theorem parentOf_withChildren : (t.withChildren n l).parentOf m = t.parentOf m :=
  parentOf_update fun _ => rfl

@[simp] theorem childrenOf_withParent {p : Option NodeId} :
    (t.withParent n p).childrenOf m = t.childrenOf m :=
  childrenOf_update fun _ => rfl

theorem parentOf_withParent {p : Option NodeId} (h : t.Allocated n) :
    (t.withParent n p).parentOf m = if n = m then p else t.parentOf m := by
  obtain ⟨slot, hslot⟩ := slot?_eq_some h
  rw [parentOf, withParent, slot?_update]
  split
  · next heq => rw [← heq, hslot, Option.map_some, Option.bind_some]
  · rfl

theorem childrenOf_withChildren (h : t.Allocated n) :
    (t.withChildren n l).childrenOf m = if n = m then l else t.childrenOf m := by
  obtain ⟨slot, hslot⟩ := slot?_eq_some h
  rw [childrenOf, withChildren, slot?_update]
  by_cases hm : n = m
  · rw [if_pos hm, if_pos hm, ← hm, hslot, Option.map_some]
  · rw [if_neg hm, if_neg hm, childrenOf]

section Attach
variable {q : Option NodeId} {slot : Slot P}

theorem slot?_attach_parent (hpc : p ≠ c) (hp : t.slot? p = some slot) :
    ((t.withChildren p l).withParent c q).slot? p = some { slot with children := l } := by
  rw [withParent, slot?_update, if_neg (Ne.symm hpc), withChildren, slot?_update, if_pos rfl, hp]
  rfl

theorem slot?_attach_child (hpc : p ≠ c) (hc : t.slot? c = some slot) :
    ((t.withChildren p l).withParent c q).slot? c = some { slot with parent := q } := by
  rw [withParent, slot?_update, if_pos rfl, withChildren, slot?_update, if_neg hpc, hc]
  rfl

theorem slot?_attach_other (hp : p ≠ n) (hc : c ≠ n) :
    ((t.withChildren p l).withParent c q).slot? n = t.slot? n := by
  rw [withParent, slot?_update, if_neg hc, withChildren, slot?_update, if_neg hp]

end Attach

theorem slot?_add (location : Location) (payload : P) :
    (t.add location payload).slot? m =
      if m = t.next then some ⟨location, none, [], payload⟩ else t.slot? m := by
  rw [slot?, Tree.add, Array.getElem?_push]
  exact if_congr ⟨fun h => NodeId.index_injective h, congrArg NodeId.index⟩ rfl rfl

@[simp] theorem size_add (location : Location) (payload : P) :
    (t.add location payload).size = t.size + 1 :=
  Array.size_push ..

theorem not_allocated_next : ¬ t.Allocated t.next := Nat.lt_irrefl _

theorem parentOf_add (location : Location) (payload : P) :
    (t.add location payload).parentOf m = t.parentOf m := by
  rw [parentOf, slot?_add, parentOf]
  split
  · next hm => rw [hm, slot?_eq_none not_allocated_next]; rfl
  · rfl

theorem childrenOf_add (location : Location) (payload : P) :
    (t.add location payload).childrenOf m = t.childrenOf m := by
  rw [childrenOf, slot?_add, childrenOf]
  by_cases hm : m = t.next
  · rw [if_pos hm, hm, slot?_eq_none not_allocated_next]
  · rw [if_neg hm]

structure Attachable (t : Tree P) (p c : NodeId) : Prop where
  parent : t.Allocated p
  child : t.Allocated c
  loose : t.parentOf c = none
  apart : ¬ Relation.ReflTransGen t.Parent c p

theorem attachable_of_loose (hp : t.Allocated p) (hc : t.Allocated c) (hpc : p ≠ c)
    (hploose : t.parentOf p = none) (hcloose : t.parentOf c = none) : t.Attachable p c := by
  refine ⟨hp, hc, hcloose, fun hup => ?_⟩
  rcases Relation.ReflTransGen.cases_tail hup with heq | ⟨q, -, hq⟩
  · exact hpc heq
  · cases hploose.symm.trans hq

theorem acc_of_edge {α : Type} {r s : α → α → Prop} {p c : α} (hr : ∀ a, Acc r a)
    (hs : ∀ a b, s a b → r a b ∨ a = p ∧ b = c) (hcp : ¬ Relation.ReflTransGen r c p) (a : α) :
    Acc s a := by
  have hapart (b : α) (hb : ¬ Relation.ReflTransGen r c b) : Acc s b := by
    induction hr b with
    | intro b _ ih =>
      refine ⟨b, fun a hab => ?_⟩
      rcases hs a b hab with hab | ⟨-, rfl⟩
      · exact ih a hab fun hca => hb (hca.tail hab)
      · exact absurd .refl hb
  induction hr a with
  | intro b _ ih =>
    refine ⟨b, fun a hab => ?_⟩
    rcases hs a b hab with hab | ⟨rfl, -⟩
    · exact ih a hab
    · exact hapart a hcp

namespace Shaped

theorem link (h : t.Shaped) (hpc : t.Attachable p c) (hsize : t'.size = t.size)
    (hparent : ∀ n, t'.parentOf n = if c = n then some p else t.parentOf n)
    (hcount : ∀ n x, (t'.childrenOf n).count x =
      (t.childrenOf n).count x + if p = n ∧ c = x then 1 else 0) : t'.Shaped where
  allocated n x hx := by
    rw [Allocated, hsize]
    have hpos := List.count_pos_iff.2 hx
    rw [hcount] at hpos
    by_cases hnew : p = n ∧ c = x
    · rw [← hnew.2]
      exact hpc.child
    · rw [if_neg hnew, Nat.add_zero, List.count_pos_iff] at hpos
      exact h.allocated n x hpos
  once n x := by
    rw [hcount, h.once, hparent]
    by_cases hx : c = x
    · subst hx
      simp [hpc.loose]
    · simp [hx]
  grounded n := by
    refine exists_climb_of_acc (acc_of_edge h.acc (fun a b hab => ?_) hpc.apart n)
    rw [Parent, hparent] at hab
    split at hab
    · next hb => exact .inr ⟨(Option.some.inj hab).symm, hb.symm⟩
    · exact .inl hab

theorem cut (h : t.Shaped) (gone : NodeId → Prop) [DecidablePred gone] (hsize : t'.size = t.size)
    (hparent : ∀ n, t'.parentOf n = if gone n then none else t.parentOf n)
    (hcount : ∀ n x, (t'.childrenOf n).count x =
      if gone x then 0 else (t.childrenOf n).count x) : t'.Shaped where
  allocated n x hx := by
    rw [Allocated, hsize]
    have hpos := List.count_pos_iff.2 hx
    rw [hcount] at hpos
    split at hpos
    · cases hpos
    · exact h.allocated n x (List.count_pos_iff.1 hpos)
  once n x := by
    rw [hcount, hparent]
    split
    · rfl
    · exact h.once n x
  grounded n := by
    refine exists_climb_of_acc (Subrelation.accessible (fun {a b} hab => ?_) (h.acc n))
    rw [Parent, hparent] at hab
    split at hab
    · cases hab
    · exact hab

theorem update (h : t.Shaped) {change : Slot P → Slot P}
    (hparent : ∀ slot, (change slot).parent = slot.parent)
    (hchildren : ∀ slot, (change slot).children = slot.children) : (t.update n change).Shaped :=
  h.congr (Nat.le_of_eq size_update.symm) (fun _ => parentOf_update hparent)
    fun _ => childrenOf_update hchildren

theorem add (h : t.Shaped) (location : Location) (payload : P) : (t.add location payload).Shaped :=
  h.congr (by simp) (fun _ => parentOf_add ..) fun _ => childrenOf_add ..

theorem attach (h : t.Shaped) (hpc : t.Attachable p c) (hl : l.Perm (c :: t.childrenOf p)) :
    ((t.withChildren p l).withParent c (some p)).Shaped := by
  refine h.link hpc (by simp) (fun n => ?_) fun n x => ?_
  · have hc : (t.withChildren p l).Allocated c := by simpa [Allocated] using hpc.child
    rw [parentOf_withParent hc, parentOf_withChildren]
  · rw [childrenOf_withParent, childrenOf_withChildren hpc.parent]
    by_cases hn : p = n
    · subst hn
      rw [if_pos rfl, hl.count_eq, List.count_cons]
      simp
    · simp [hn]

theorem detach (h : t.Shaped) (hc : t.parentOf c = some p) (hl : (c :: l).Perm (t.childrenOf p)) :
    ((t.withChildren p l).withParent c none).Shaped := by
  have halloc : (t.withChildren p l).Allocated c := by
    simpa [Allocated] using allocated_of_parentOf hc
  refine h.cut (c = ·) (by simp) (fun n => ?_) fun n x => ?_
  · rw [parentOf_withParent halloc, parentOf_withChildren]
  · rw [childrenOf_withParent, childrenOf_withChildren (h.allocated_parent hc)]
    have hcount : (t.childrenOf p).count x = l.count x + if c = x then 1 else 0 := by
      rw [← hl.count_eq, List.count_cons]
      simp
    have honce := h.once n x
    by_cases hx : c = x
    · subst hx
      rw [if_pos rfl] at hcount ⊢
      rw [h.once, if_pos hc] at hcount
      rw [hc] at honce
      by_cases hn : p = n
      · rw [if_pos hn]
        omega
      · rw [if_neg hn, honce, if_neg (fun hpn => hn (Option.some.inj hpn))]
    · rw [if_neg hx] at hcount ⊢
      split
      · next hn => rw [← hn, hcount, Nat.add_zero]
      · rfl

theorem of_child (h : t.Shaped) {i : Nat} (hi : (t.childrenOf p)[i]? = some c) :
    t.parentOf c = some p ∧ (c :: (t.childrenOf p).eraseIdx i).Perm (t.childrenOf p) := by
  obtain ⟨hlt, hget⟩ := List.getElem?_eq_some_iff.1 hi
  refine ⟨h.mem_childrenOf.1 (List.mem_of_getElem? hi), ?_⟩
  rw [← hget]
  exact List.getElem_cons_eraseIdx_perm hlt

theorem replace (h : t.Shaped) (hc : t.parentOf c = some p) (hpx : t.Attachable p x)
    (hrest : (c :: l).Perm (t.childrenOf p)) {l' : List NodeId} (hl : l'.Perm (x :: l)) :
    (((t.withChildren p l').withParent c none).withParent x (some p)).Shaped := by
  -- The links are those of taking the child away first and putting the node under the parent then.
  let s := (t.withChildren p l).withParent c none
  have hs : s.Shaped := h.detach hc hrest
  have hcalloc {k : List NodeId} : (t.withChildren p k).Allocated c := by
    simpa [Allocated] using allocated_of_parentOf hc
  have hparent (n : NodeId) : s.parentOf n = if c = n then none else t.parentOf n := by
    rw [parentOf_withParent hcalloc, parentOf_withChildren]
  have hapart : ¬ Relation.ReflTransGen s.Parent x p := by
    refine fun hxp => hpx.apart (Relation.ReflTransGen.mono (fun a b hab => ?_) x p hxp)
    rw [Parent, hparent] at hab
    split at hab
    · cases hab
    · exact hab
  have hattachable : s.Attachable p x :=
    ⟨by simpa [Allocated, s] using hpx.parent, by simpa [Allocated, s] using hpx.child,
      by rw [hparent, hpx.loose, ite_self], hapart⟩
  have hxalloc : ((t.withChildren p l').withParent c none).Allocated x := by
    simpa [Allocated] using hpx.child
  refine hs.link hattachable (by simp [s]) (fun n => ?_) fun n y => ?_
  · rw [parentOf_withParent hxalloc, parentOf_withParent hcalloc, parentOf_withChildren, hparent]
  · rw [childrenOf_withParent, childrenOf_withParent, childrenOf_withParent,
      childrenOf_withChildren hpx.parent, childrenOf_withChildren hpx.parent]
    by_cases hn : p = n
    · rw [if_pos hn, if_pos hn, hl.count_eq, List.count_cons]
      simp [hn]
    · simp [hn]

end Shaped

section Queries

theorem slot_foreign (h : ¬ t.Allocated n) : t.slot n = .error (.foreign n) := by
  rw [slot, slot?_eq_none h]

theorem parent_eq (h : t.Allocated n) : t.parent n = .ok (t.parentOf n) := by
  obtain ⟨slot, hslot⟩ := slot?_eq_some h
  rw [parent, Tree.slot, parentOf, hslot]
  rfl

theorem parent_foreign (h : ¬ t.Allocated n) : t.parent n = .error (.foreign n) := by
  rw [parent, slot_foreign h]
  rfl

theorem children_eq (h : t.Allocated n) : t.children n = .ok (t.childrenOf n) := by
  obtain ⟨slot, hslot⟩ := slot?_eq_some h
  rw [children, Tree.slot, childrenOf, hslot]
  rfl

theorem children_foreign (h : ¬ t.Allocated n) : t.children n = .error (.foreign n) := by
  rw [children, slot_foreign h]
  rfl

theorem ancestors_eq (h : t.Allocated n) : t.ancestors n = .ok (t.ancestorsOf n) := by
  obtain ⟨slot, hslot⟩ := slot?_eq_some h
  rw [ancestors, Tree.slot, hslot]
  rfl

theorem ancestors_foreign (h : ¬ t.Allocated n) : t.ancestors n = .error (.foreign n) := by
  rw [ancestors, slot_foreign h]
  rfl

theorem descendants_eq (h : t.Allocated n) : t.descendants n = .ok (t.preorder n) := by
  obtain ⟨slot, hslot⟩ := slot?_eq_some h
  rw [descendants, Tree.slot, hslot]
  rfl

theorem child_cases (t : Tree P) (p : NodeId) (i : Nat) :
    (∃ misuse, t.child p i = .error misuse) ∨
      ∃ c, t.child p i = .ok c ∧ (t.childrenOf p)[i]? = some c ∧ t.Allocated p := by
  by_cases hp : t.Allocated p
  · rw [child, children_eq hp]
    cases hc : (t.childrenOf p)[i]? with
    | none =>
      exact .inl ⟨.childIndex i p (t.childrenOf p).length, by simp [bind, Except.bind, hc]; rfl⟩
    | some c => exact .inr ⟨c, by simp [bind, Except.bind, hc]; rfl, rfl, hp⟩
  · rw [child, children_foreign hp]
    exact .inl ⟨_, rfl⟩

end Queries
end Tree

namespace Editing

variable {P α β : Type} {t : Tree P} {n p c : NodeId} {l : List NodeId}

theorem run_query (question : Tree P → Except Misuse α) (t : Tree P) :
    query question t = (question t, t) := by
  rw [query, run_bind, run_get]
  cases hanswer : question t with
  | ok answer => simp only [hanswer]; rfl
  | error misuse => simp only [hanswer]; rfl

theorem run_setChildren (h : t.Allocated p) : setChildren p l t = (.ok (), t.withChildren p l) := by
  obtain ⟨slot, hslot⟩ := Tree.slot?_eq_some h
  rw [setChildren, modifySlot, run_bind, run_query, Tree.slot, hslot]
  rfl

theorem run_setParent (h : t.Allocated c) (p : Option NodeId) :
    setParent c p t = (.ok (), t.withParent c p) := by
  obtain ⟨slot, hslot⟩ := Tree.slot?_eq_some h
  rw [setParent, modifySlot, run_bind, run_query, Tree.slot, hslot]
  rfl

theorem checkAttachable_cases (h : t.Shaped) (p c : NodeId) :
    (∃ misuse, checkAttachable p c t = (.error misuse, t)) ∨
      checkAttachable p c t = (.ok (), t) ∧ t.Attachable p c := by
  rw [checkAttachable, run_bind, run_query]
  by_cases hc : t.Allocated c
  · rw [Tree.parent_eq hc]
    cases hparent : t.parentOf c with
    | some q => exact .inl ⟨_, rfl⟩
    | none =>
      by_cases hpc : p = c
      · exact .inl ⟨.cycle c p, by simp [hpc]; rfl⟩
      by_cases hp : t.Allocated p
      · by_cases hmem : c ∈ t.ancestorsOf p
        · exact .inl ⟨.cycle c p, by
            simp [hpc, run_bind, run_query, Tree.ancestors_eq hp, hmem]; rfl⟩
        · have hapart : ¬ Relation.ReflTransGen t.Parent c p := by
            rw [← h.mem_self_ancestorsOf, List.mem_cons]
            exact not_or.2 ⟨Ne.symm hpc, hmem⟩
          exact .inr ⟨by simp [hpc, run_bind, run_query, Tree.ancestors_eq hp, hmem]; rfl,
            hp, hc, hparent, hapart⟩
      · exact .inl ⟨.foreign p, by simp [hpc, run_bind, run_query, Tree.ancestors_foreign hp]⟩
  · rw [Tree.parent_foreign hc]
    exact .inl ⟨_, rfl⟩

section Outcomes

theorem addChildAt_cases (h : t.Shaped) (p : NodeId) (i : Nat) (c : NodeId) :
    (∃ misuse, addChildAt p i c t = (.error misuse, t)) ∨
      addChildAt p i c t = (.ok (),
          (t.withChildren p ((t.childrenOf p).insertIdx i c)).withParent c (some p)) ∧
        t.Attachable p c ∧ i ≤ (t.childrenOf p).length := by
  rw [addChildAt, run_bind]
  rcases checkAttachable_cases h p c with ⟨misuse, hrun⟩ | ⟨hrun, hpc⟩
  · rw [hrun]
    exact .inl ⟨misuse, rfl⟩
  simp only [hrun, run_bind, run_query, Tree.children_eq hpc.parent]
  by_cases hi : (t.childrenOf p).length < i
  · rw [if_pos hi]
    exact .inl ⟨_, rfl⟩
  · have hc : (t.withChildren p ((t.childrenOf p).insertIdx i c)).Allocated c := by
      simpa [Tree.Allocated] using hpc.child
    refine .inr ⟨?_, hpc, Nat.le_of_not_lt hi⟩
    simp only [if_neg hi, run_setChildren hpc.parent, run_bind, run_setParent hc]

theorem removeChildAt_cases (h : t.Shaped) (p : NodeId) (i : Nat) :
    (∃ misuse, removeChildAt p i t = (.error misuse, t)) ∨
      ∃ c, removeChildAt p i t = (.ok c,
          (t.withChildren p ((t.childrenOf p).eraseIdx i)).withParent c none) ∧
        t.parentOf c = some p ∧ (c :: (t.childrenOf p).eraseIdx i).Perm (t.childrenOf p) := by
  rw [removeChildAt, run_bind, run_query]
  rcases t.child_cases p i with ⟨misuse, hchild⟩ | ⟨c, hchild, hi, hp⟩
  · rw [hchild]
    exact .inl ⟨misuse, rfl⟩
  obtain ⟨hparent, hperm⟩ := h.of_child hi
  have hc : (t.withChildren p ((t.childrenOf p).eraseIdx i)).Allocated c := by
    simpa [Tree.Allocated] using Tree.allocated_of_parentOf hparent
  simp only [hchild, run_bind, run_query, Tree.children_eq hp, run_setChildren hp, run_setParent hc]
  exact .inr ⟨c, rfl, hparent, hperm⟩

theorem replaceChildAt_cases (h : t.Shaped) (p : NodeId) (i : Nat) (x : NodeId) :
    (∃ misuse, replaceChildAt p i x t = (.error misuse, t)) ∨
      replaceChildAt p i x t = (.ok x, t) ∨
        ∃ c, replaceChildAt p i x t = (.ok c, ((t.withChildren p
            ((t.childrenOf p).set i x)).withParent c none).withParent x (some p)) ∧
          t.parentOf c = some p ∧ t.Attachable p x ∧
          (c :: (t.childrenOf p).eraseIdx i).Perm (t.childrenOf p) ∧
          i < (t.childrenOf p).length := by
  rw [replaceChildAt, run_bind, run_query]
  rcases t.child_cases p i with ⟨misuse, hchild⟩ | ⟨c, hchild, hi, hp⟩
  · rw [hchild]
    exact .inl ⟨misuse, rfl⟩
  by_cases hcx : c = x
  · simp only [hchild, if_pos hcx]
    exact .inr (.inl (by rw [hcx]; rfl))
  simp only [hchild, if_neg hcx, run_bind]
  rcases checkAttachable_cases h p x with ⟨misuse, hrun⟩ | ⟨hrun, hpx⟩
  · rw [hrun]
    exact .inl ⟨misuse, rfl⟩
  obtain ⟨hparent, hperm⟩ := h.of_child hi
  have hc : (t.withChildren p ((t.childrenOf p).set i x)).Allocated c := by
    simpa [Tree.Allocated] using Tree.allocated_of_parentOf hparent
  have hx : ((t.withChildren p ((t.childrenOf p).set i x)).withParent c none).Allocated x := by
    simpa [Tree.Allocated] using hpx.child
  simp only [hrun, run_query, Tree.children_eq hp, run_setChildren hp, run_setParent hc,
    run_setParent hx]
  exact .inr (.inr ⟨c, rfl, hparent, hpx, hperm, (List.getElem?_eq_some_iff.1 hi).1⟩)

theorem run_orphanAll (h : ∀ c ∈ l, t.Allocated c) :
    ∃ t', orphanAll l t = (.ok (), t') ∧ t'.size = t.size ∧
      (∀ n, t'.parentOf n = if n ∈ l then none else t.parentOf n) ∧
      ∀ n, t'.childrenOf n = t.childrenOf n := by
  induction l generalizing t with
  | nil => exact ⟨t, rfl, rfl, fun _ => (if_neg (List.not_mem_nil)).symm, fun _ => rfl⟩
  | cons c l ih =>
    obtain ⟨hc, hl⟩ := List.forall_mem_cons.1 h
    obtain ⟨t', hrun, hsize, hparent, hchildren⟩ :=
      ih (t := t.withParent c none) (by simpa [Tree.Allocated] using hl)
    refine ⟨t', ?_, by rw [hsize, Tree.size_withParent], fun n => ?_, fun n => ?_⟩
    · rw [orphanAll, run_bind, run_setParent hc]
      exact hrun
    · rw [hparent, Tree.parentOf_withParent hc]
      by_cases hn : c = n
      · simp [hn]
      · simp [hn, Ne.symm hn]
    · rw [hchildren, Tree.childrenOf_withParent]

theorem clearChildren_cases (h : t.Shaped) (p : NodeId) :
    (∃ misuse, clearChildren p t = (.error misuse, t)) ∨
      ∃ t', clearChildren p t = (.ok (), t') ∧ t'.size = t.size ∧
        (∀ n, t'.parentOf n = if n ∈ t.childrenOf p then none else t.parentOf n) ∧
        ∀ n, t'.childrenOf n = if p = n then [] else t.childrenOf n := by
  rw [clearChildren, run_bind, run_query]
  by_cases hp : t.Allocated p
  · have hall : ∀ c ∈ t.childrenOf p, (t.withChildren p []).Allocated c := by
      simpa [Tree.Allocated] using h.allocated p
    obtain ⟨t', hrun, hsize, hparent, hchildren⟩ := run_orphanAll hall
    simp only [Tree.children_eq hp, run_bind, run_setChildren hp, hrun]
    refine .inr ⟨t', rfl, by rw [hsize, Tree.size_withChildren], fun n => ?_, fun n => ?_⟩
    · rw [hparent, Tree.parentOf_withChildren]
    · rw [hchildren, Tree.childrenOf_withChildren hp]
  · rw [Tree.children_foreign hp]
    exact .inl ⟨_, rfl⟩

end Outcomes

section Shape

def KeepsShape (a : Editing P α) : Prop := ∀ t, t.Shaped → (a t).2.Shaped

theorem KeepsShape.bind {a : Editing P α} {f : α → Editing P β} (ha : KeepsShape a)
    (hf : ∀ x, KeepsShape (f x)) : KeepsShape (a >>= f) := by
  intro t h
  have hshape := ha t h
  rw [run_bind]
  rcases hrun : a t with ⟨misuse | x, t'⟩
  · rwa [hrun] at hshape
  · rw [hrun] at hshape
    exact hf x t' hshape

theorem keepsShape_pure (x : α) : KeepsShape (pure x : Editing P α) := fun _ h => h

theorem keepsShape_throw (misuse : Misuse) : KeepsShape (throw misuse : Editing P α) :=
  fun _ h => h

theorem keepsShape_query (question : Tree P → Except Misuse α) : KeepsShape (query question) := by
  intro t h
  rwa [run_query]

theorem keepsShape_addChildAt (p : NodeId) (i : Nat) (c : NodeId) :
    KeepsShape (P := P) (addChildAt p i c) := by
  intro t h
  rcases addChildAt_cases h p i c with ⟨misuse, hrun⟩ | ⟨hrun, hpc, hi⟩
  · rwa [hrun]
  · rw [hrun]
    exact h.attach hpc (List.perm_insertIdx c _ hi)

theorem keepsShape_addChild (p c : NodeId) : KeepsShape (P := P) (addChild p c) :=
  (keepsShape_query _).bind fun _ => keepsShape_addChildAt p _ c

theorem keepsShape_addChildren (p : NodeId) (cs : List NodeId) :
    KeepsShape (P := P) (addChildren p cs) := by
  induction cs with
  | nil => exact keepsShape_pure ()
  | cons c cs ih => exact (keepsShape_addChild p c).bind fun _ => ih

theorem keepsShape_removeChildAt (p : NodeId) (i : Nat) :
    KeepsShape (P := P) (removeChildAt p i) := by
  intro t h
  rcases removeChildAt_cases h p i with ⟨misuse, hrun⟩ | ⟨c, hrun, hparent, hperm⟩
  · rwa [hrun]
  · rw [hrun]
    exact h.detach hparent hperm

theorem keepsShape_indexOfChild (p c : NodeId) : KeepsShape (P := P) (indexOfChild p c) := by
  refine (keepsShape_query _).bind fun index => ?_
  cases index with
  | none => exact keepsShape_throw _
  | some i => exact keepsShape_pure i

theorem keepsShape_removeChild (p c : NodeId) : KeepsShape (P := P) (removeChild p c) :=
  (keepsShape_indexOfChild p c).bind fun i =>
    (keepsShape_removeChildAt p i).bind fun _ => keepsShape_pure ()

theorem keepsShape_replaceChildAt (p : NodeId) (i : Nat) (x : NodeId) :
    KeepsShape (P := P) (replaceChildAt p i x) := by
  intro t h
  rcases replaceChildAt_cases h p i x with
    ⟨misuse, hrun⟩ | hrun | ⟨c, hrun, hparent, hpx, hperm, hi⟩
  · rwa [hrun]
  · rwa [hrun]
  · rw [hrun]
    exact h.replace hparent hpx hperm (List.set_perm_cons_eraseIdx hi x)

theorem keepsShape_replaceChild (p c x : NodeId) :
    KeepsShape (P := P) (replaceChild p c x) :=
  (keepsShape_indexOfChild p c).bind fun i =>
    (keepsShape_replaceChildAt p i x).bind fun _ => keepsShape_pure ()

theorem keepsShape_clearChildren (p : NodeId) : KeepsShape (P := P) (clearChildren p) := by
  intro t h
  rcases clearChildren_cases h p with ⟨misuse, hrun⟩ | ⟨t', hrun, hsize, hparent, hchildren⟩
  · rwa [hrun]
  rw [hrun]
  refine h.cut (· ∈ t.childrenOf p) hsize hparent fun n x => ?_
  rw [hchildren]
  by_cases hx : x ∈ t.childrenOf p
  · rw [if_pos hx]
    by_cases hn : p = n
    · rw [if_pos hn, List.count_nil]
    · rw [if_neg hn, h.once, h.mem_childrenOf.1 hx, if_neg fun hpn => hn (Option.some.inj hpn)]
  · rw [if_neg hx]
    by_cases hn : p = n
    · rw [if_pos hn, List.count_nil, ← hn, List.count_eq_zero.2 hx]
    · rw [if_neg hn]

theorem keepsShape_modifySlot (n : NodeId) (change : Slot P → Slot P)
    (hparent : ∀ slot, (change slot).parent = slot.parent)
    (hchildren : ∀ slot, (change slot).children = slot.children) :
    KeepsShape (modifySlot n change) :=
  (keepsShape_query _).bind fun _ _ h => h.update hparent hchildren

theorem keepsShape_add (location : Location) (payload : P) :
    KeepsShape (add location payload) := by
  intro t h
  exact h.add location payload

end Shape

end Editing
end TemplateCheck
