import TemplateCheck.Proofs.Tree.Editing
import TemplateCheck.Tree.Copy

/-! Copies leave the nodes that were there before as they are, and keep the shape of a tree even
when they end in a misuse, with the copies made up to then in the tree. -/

namespace TemplateCheck

variable {P α β : Type} {t t' t'' : Tree P} {c : CopyState} {n p old new : NodeId} {k : Nat}

namespace Tree

structure GrowsAbove (k : Nat) (t t' : Tree P) : Prop where
  size : t.size ≤ t'.size
  kept : ∀ n, n.index < k → t'.slot? n = t.slot? n

namespace GrowsAbove

theorem refl (k : Nat) (t : Tree P) : GrowsAbove k t t := ⟨Nat.le_refl _, fun _ _ => rfl⟩

theorem trans (h : GrowsAbove k t t') (h' : GrowsAbove k t' t'') : GrowsAbove k t t'' where
  size := Nat.le_trans h.size h'.size
  kept n hn := by rw [h'.kept n hn, h.kept n hn]

theorem mono {l : Nat} (h : GrowsAbove k t t') (hl : l ≤ k) : GrowsAbove l t t' :=
  ⟨h.size, fun n hn => h.kept n (Nat.lt_of_lt_of_le hn hl)⟩

theorem allocated (h : GrowsAbove k t t') (hn : t.Allocated n) : t'.Allocated n :=
  Nat.lt_of_lt_of_le hn h.size

theorem parentOf (h : GrowsAbove k t t') (hn : n.index < k) : t'.parentOf n = t.parentOf n := by
  rw [Tree.parentOf, h.kept n hn, Tree.parentOf]

theorem childrenOf (h : GrowsAbove k t t') (hn : n.index < k) :
    t'.childrenOf n = t.childrenOf n := by
  rw [Tree.childrenOf, h.kept n hn, Tree.childrenOf]

theorem add (location : Location) (payload : P) :
    GrowsAbove t.size t (t.add location payload) where
  size := by simp
  kept n hn := by
    rw [slot?_add, if_neg]
    rintro rfl
    exact Nat.lt_irrefl _ hn

theorem update {change : Slot P → Slot P} (hn : k ≤ n.index) :
    GrowsAbove k t (t.update n change) where
  size := by simp
  kept m hm := by
    rw [slot?_update, if_neg]
    rintro rfl
    omega

theorem attach {l : List NodeId} {q : Option NodeId} (hp : k ≤ p.index) (hn : k ≤ n.index) :
    t.GrowsAbove k ((t.withChildren p l).withParent n q) :=
  (update hp).trans (update hn)

end GrowsAbove

end Tree

namespace Copying

theorem run_edit (action : Editing P α) (t : Tree P) (c : CopyState) :
    edit action (t, c) = ((action t).1, (action t).2, c) := rfl

theorem run_note (change : CopyState → CopyState) (t : Tree P) (c : CopyState) :
    note change (t, c) = (.ok (), t, change c) := rfl

theorem run_attach (hp : t.Allocated p) (hn : t.Allocated n) :
    attach p n t =
      (.ok (), (t.withChildren p (t.childrenOf p ++ [n])).withParent n (some p)) := by
  have hn' : (t.withChildren p (t.childrenOf p ++ [n])).Allocated n := by
    simpa [Tree.Allocated] using hn
  simp only [attach, run_bind, Editing.run_query, Tree.children_eq hp, Editing.run_setChildren hp,
    Editing.run_setParent hn']

variable [CrossReferring P]

theorem run_copyNode {slot : Slot P} (hslot : t.slot? old = some slot) (c : CopyState) :
    copyNode old (t, c) =
      (if (c.copyOf? old).isSome then .error (.copiedTwice old) else .ok t.next,
        t.add slot.location slot.payload,
        (c.await t.next (CrossReferring.references slot.payload)).record old t.next) := by
  have hquery : t.slot old = .ok slot := by rw [Tree.slot, hslot]
  have hadd (c : CopyState) : edit (Editing.add slot.location slot.payload) (t, c) =
      (.ok t.next, t.add slot.location slot.payload, c) := rfl
  have hcopyOf : (c.await t.next (CrossReferring.references slot.payload)).copyOf? old =
      c.copyOf? old := rfl
  rw [copyNode, run_bind, run_edit, Editing.run_query, hquery]
  simp only [run_bind, run_get, run_note, hadd]
  rw [hcopyOf]
  cases c.copyOf? old with
  | none => rfl
  | some copied => rfl

theorem run_copyNode_foreign (h : ¬ t.Allocated old) (c : CopyState) :
    copyNode old (t, c) = (.error (.foreign old), t, c) := by
  rw [copyNode, run_bind, run_edit, Editing.run_query, Tree.slot_foreign h]

def copyChildren (depth : Nat) (new : NodeId) (children : List NodeId) : Copying P Unit :=
  children.forM fun child => do
    let copied ← copyWithin depth child
    edit (attach new copied)

theorem run_copyWithin {slot : Slot P} (hslot : t.slot? old = some slot) (depth : Nat)
    (c : CopyState) :
    copyWithin (depth + 1) old (t, c) =
      match copyNode old (t, c) with
      | (.error misuse, s) => (.error misuse, s)
      | (.ok new, s) =>
        match copyChildren depth new (t.childrenOf old) s with
        | (.error misuse, s) => (.error misuse, s)
        | (.ok (), s) => (.ok new, s) := by
  have hgrows := Tree.GrowsAbove.add (t := t) slot.location slot.payload
  have hold : old.index < t.size := Tree.allocated_of_slot? hslot
  rw [copyWithin, run_bind, run_copyNode hslot]
  cases c.copyOf? old with
  | some copied => rfl
  | none =>
    simp only [Option.isSome_none, Bool.false_eq_true, if_false, run_bind, run_edit,
      Editing.run_query, Tree.children_eq (hgrows.allocated hold), hgrows.childrenOf hold]
    rw [← copyChildren]
    rcases copyChildren depth t.next (t.childrenOf old) _ with ⟨misuse | _, s⟩ <;> rfl

theorem run_copyChildren_cons (depth : Nat) (new child : NodeId) (children : List NodeId)
    (s : Tree P × CopyState) :
    copyChildren depth new (child :: children) s =
      match copyWithin depth child s with
      | (.error misuse, s) => (.error misuse, s)
      | (.ok copied, t, c) =>
        match attach new copied t with
        | (.error misuse, t) => (.error misuse, t, c)
        | (.ok (), t) => copyChildren depth new children (t, c) := by
  rw [copyChildren, List.forM, run_bind, run_bind]
  rcases copyWithin depth child s with ⟨misuse | copied, t, c⟩
  · rfl
  · dsimp only
    rw [run_edit]
    rcases attach new copied t with ⟨misuse | _, t⟩ <;> rfl

/-- What a copy of a node does to a tree; a copy that succeeds makes a new node without parent. -/
structure Copied (t : Tree P) (result : Except Misuse NodeId × Tree P × CopyState) : Prop where
  shaped : result.2.1.Shaped
  grows : t.GrowsAbove t.size result.2.1
  made : ∀ new, result.1 = .ok new →
    ¬ t.Allocated new ∧ result.2.1.Allocated new ∧ result.2.1.parentOf new = none

omit [CrossReferring P] in
theorem Copied.error {misuse : Misuse} (hshaped : t'.Shaped) (hgrows : t.GrowsAbove t.size t') :
    Copied t (.error misuse, t', c) :=
  ⟨hshaped, hgrows, fun _ hnew => nomatch hnew⟩

theorem shaped_copyChildren {depth : Nat}
    (hone : ∀ (t : Tree P) c old, t.Shaped → Copied t (copyWithin depth old (t, c)))
    (children : List NodeId) (h : t.Shaped) (hnew : t.Allocated new)
    (hloose : t.parentOf new = none) {t' : Tree P} {c' : CopyState} {result : Except Misuse Unit}
    (hrun : copyChildren depth new children (t, c) = (result, t', c')) :
    t'.Shaped ∧ t.GrowsAbove new.index t' ∧ t'.parentOf new = none := by
  induction children generalizing t c with
  | nil =>
    cases hrun
    exact ⟨h, .refl _ _, hloose⟩
  | cons child children ih =>
    have hcopied := hone t c child h
    rw [run_copyChildren_cons] at hrun
    rcases hchild : copyWithin depth child (t, c) with ⟨misuse | copied, u, d⟩
    · rw [hchild] at hrun hcopied
      cases hrun
      exact ⟨hcopied.shaped, hcopied.grows.mono (Nat.le_of_lt hnew),
        by rw [hcopied.grows.parentOf hnew, hloose]⟩
    · rw [hchild] at hrun hcopied
      have hgrows : t.GrowsAbove t.size u := hcopied.grows
      obtain ⟨hfresh, hcopiedu, hcopiedloose⟩ := hcopied.made copied rfl
      have hnewu : u.Allocated new := hgrows.allocated hnew
      have hlooseu : u.parentOf new = none := by rw [hgrows.parentOf hnew, hloose]
      have hne : copied ≠ new := by
        rintro rfl
        exact hfresh hnew
      have hattachable := Tree.attachable_of_loose hnewu hcopiedu hne.symm hlooseu hcopiedloose
      simp only [run_attach hnewu hcopiedu] at hrun
      have hbound : new.index ≤ copied.index :=
        Nat.le_trans (Nat.le_of_lt hnew) (Nat.le_of_not_lt hfresh)
      have hattach : u.GrowsAbove new.index _ :=
        .attach (l := u.childrenOf new ++ [copied]) (q := some new) (Nat.le_refl _) hbound
      have hlooseattach : ((u.withChildren new (u.childrenOf new ++ [copied])).withParent copied
          (some new)).parentOf new = none := by
        have halloc : (u.withChildren new (u.childrenOf new ++ [copied])).Allocated copied := by
          simpa [Tree.Allocated] using hcopiedu
        rw [Tree.parentOf_withParent halloc, if_neg hne, Tree.parentOf_withChildren, hlooseu]
      obtain ⟨hshaped, hrest, hparent⟩ := ih
        (hcopied.shaped.attach hattachable (List.perm_append_singleton copied _))
        (hattach.allocated hnewu) hlooseattach hrun
      exact ⟨hshaped, ((hgrows.mono (Nat.le_of_lt hnew)).trans hattach).trans hrest, hparent⟩

theorem copied_copyWithin (depth : Nat) (t : Tree P) (c : CopyState) (old : NodeId)
    (h : t.Shaped) : Copied t (copyWithin depth old (t, c)) := by
  induction depth generalizing t c old with
  | zero => exact .error h (.refl _ _)
  | succ depth ih =>
    by_cases hold : t.Allocated old
    · obtain ⟨slot, hslot⟩ := Tree.slot?_eq_some hold
      have hadd : t.GrowsAbove t.size (t.add slot.location slot.payload) := .add ..
      have hshaped : (t.add slot.location slot.payload).Shaped := h.add ..
      have hnext : (t.add slot.location slot.payload).Allocated t.next := by
        simp [Tree.Allocated, Tree.next]
      have hloose : (t.add slot.location slot.payload).parentOf t.next = none := by
        rw [Tree.parentOf_add, Tree.parentOf, Tree.slot?_eq_none Tree.not_allocated_next]
        rfl
      rw [run_copyWithin hslot, run_copyNode hslot]
      cases c.copyOf? old with
      | some copied => exact .error hshaped hadd
      | none =>
        simp only [Option.isSome_none, Bool.false_eq_true, if_false]
        rcases hrun : copyChildren depth t.next (t.childrenOf old)
          (t.add slot.location slot.payload, _) with ⟨misuse | _, t', c'⟩
        all_goals obtain ⟨hshaped', hgrows, hparent⟩ :=
          shaped_copyChildren ih _ hshaped hnext hloose hrun
        · exact .error hshaped' (hadd.trans hgrows)
        · refine ⟨hshaped', hadd.trans hgrows, fun new hnew => ?_⟩
          cases hnew
          exact ⟨Tree.not_allocated_next, hgrows.allocated hnext, hparent⟩
    · rw [copyWithin, run_bind, run_copyNode_foreign hold]
      exact .error h (.refl _ _)

theorem copied_copy (h : t.Shaped) (c : CopyState) (root : NodeId) :
    Copied t (copy root (t, c)) := by
  rw [copy, run_bind, run_get]
  exact copied_copyWithin _ t c root h

end Copying

variable [CrossReferring P]

namespace CopyState

theorem shaped_finish (h : t.Shaped) (c : CopyState) : (c.finish t).Shaped := by
  rw [finish]
  induction c.pending generalizing t with
  | nil => exact h
  | cons r pending ih =>
    refine ih ?_
    rw [redirectReference]
    cases c.copyOf? r.target with
    | none => exact h
    | some new => exact h.update (fun _ => rfl) fun _ => rfl

end CopyState

theorem Editing.keepsShape_copySubtree (root : NodeId) :
    KeepsShape (copySubtree root : Editing P NodeId) := by
  intro t h
  have hcopied := Copying.copied_copy h CopyState.empty root
  rw [copySubtree]
  rcases hrun : Copying.copy root (t, CopyState.empty) with ⟨misuse | new, u, c⟩
  all_goals rw [hrun] at hcopied
  · exact hcopied.shaped
  · exact c.shaped_finish hcopied.shaped

end TemplateCheck
