import TemplateCheck.Proofs.Tree.Copies

/-! Copies with the notes of earlier copies. A copy that succeeds does the same as it does without
notes, and puts its own on top. -/

namespace TemplateCheck

variable {P : Type} {t t' : Tree P} {d e c' : CopyState} {old new n : NodeId} {root : NodeId}
  {depth : Nat}

namespace CopyState

def upon (d e : CopyState) : CopyState := ⟨d.copies ++ e.copies, e.pending ++ d.pending⟩

/-- What has been copied has not been copied before. -/
def Apart (d e : CopyState) : Prop := ∀ x new, d.copyOf? x = some new → e.copyOf? x = none

theorem copyOf?_upon : (d.upon e).copyOf? n = (d.copyOf? n).or (e.copyOf? n) := List.lookup_append

theorem empty_upon : empty.upon e = e := by rw [upon, empty, List.nil_append, List.append_nil]

theorem upon_empty : d.upon empty = d := by rw [upon, empty, List.append_nil, List.nil_append]

theorem apart_empty : empty.Apart e := nofun

theorem filter_copies_eq_self (h : d.copyOf? old = none) :
    d.copies.filter (·.1 != old) = d.copies := by
  rw [List.filter_eq_self]
  intro p hp
  have hne := List.lookup_eq_none_iff.1 h p hp
  exact bne_iff_ne.2 (bne_iff_ne.1 hne).symm

theorem copyOf?_record (h : d.copyOf? old = none) :
    (d.record old new).copyOf? n = if n = old then some new else d.copyOf? n := by
  rw [copyOf?, record, filter_copies_eq_self h, List.lookup_cons]
  by_cases hn : n = old
  · rw [if_pos hn, beq_iff_eq.2 hn]
  · rw [if_neg hn, beq_eq_false_iff_ne.2 hn, copyOf?]

theorem record_upon (h : e.copyOf? old = none) :
    (d.upon e).record old new = (d.record old new).upon e := by
  rw [record, upon, List.filter_append, filter_copies_eq_self h]
  rfl

theorem await_upon (references : List NodeId) :
    (d.upon e).await new references = (d.await new references).upon e := by
  rw [await, upon, List.append_assoc]
  rfl

end CopyState

namespace Copying
variable [CrossReferring P]

theorem copyNode_upon (hapart : d.Apart e)
    (hrun : copyNode old (t, d.upon e) = (.ok new, t', c')) :
    ∃ d', copyNode old (t, d) = (.ok new, t', d') ∧ c' = d'.upon e ∧ d'.Apart e := by
  by_cases hold : t.Allocated old
  · obtain ⟨slot, hslot⟩ := Tree.slot?_eq_some hold
    rw [run_copyNode hslot] at hrun
    rw [run_copyNode hslot]
    cases hknown : (d.upon e).copyOf? old with
    | some copied =>
      rw [hknown] at hrun
      cases hrun
    | none =>
      rw [hknown] at hrun
      cases hrun
      obtain ⟨hd, he⟩ := Option.or_eq_none_iff.1 (CopyState.copyOf?_upon.symm.trans hknown)
      have hawait : (d.await t.next (CrossReferring.references slot.payload)).copyOf? old = none :=
        hd
      refine ⟨_, by rw [hd]; rfl, ?_, fun x copied hx => ?_⟩
      · rw [CopyState.await_upon, CopyState.record_upon he]
      · rw [CopyState.copyOf?_record hawait] at hx
        split at hx
        · next heq => rw [heq, he]
        · exact hapart x copied hx
  · rw [run_copyNode_foreign hold] at hrun
    cases hrun

theorem copyChildren_upon {children : List NodeId}
    (hone : ∀ {t : Tree P} {d old new t' c'}, d.Apart e →
      copyWithin depth old (t, d.upon e) = (.ok new, t', c') →
      ∃ d', copyWithin depth old (t, d) = (.ok new, t', d') ∧ c' = d'.upon e ∧ d'.Apart e)
    (hapart : d.Apart e) (hrun : copyChildren depth new children (t, d.upon e) = (.ok (), t', c')) :
    ∃ d', copyChildren depth new children (t, d) = (.ok (), t', d') ∧ c' = d'.upon e ∧
      d'.Apart e := by
  induction children generalizing t d with
  | nil =>
    cases hrun
    exact ⟨d, rfl, rfl, hapart⟩
  | cons child children ih =>
    rw [run_copyChildren_cons] at hrun ⊢
    rcases hchild : copyWithin depth child (t, d.upon e) with ⟨misuse | copied, u, c⟩
    · rw [hchild] at hrun
      cases hrun
    · obtain ⟨d₁, hchild', rfl, hapart₁⟩ := hone hapart hchild
      rw [hchild] at hrun
      rw [hchild']
      dsimp only at hrun ⊢
      rcases hattach : attach new copied u with ⟨misuse | _, u'⟩
      · rw [hattach] at hrun
        cases hrun
      · rw [hattach] at hrun
        exact ih hapart₁ hrun

theorem copyWithin_upon (hapart : d.Apart e)
    (hrun : copyWithin depth old (t, d.upon e) = (.ok new, t', c')) :
    ∃ d', copyWithin depth old (t, d) = (.ok new, t', d') ∧ c' = d'.upon e ∧ d'.Apart e := by
  induction depth generalizing t d old new t' c' with
  | zero => cases hrun
  | succ depth ih =>
    by_cases hold : t.Allocated old
    · obtain ⟨slot, hslot⟩ := Tree.slot?_eq_some hold
      rw [run_copyWithin hslot] at hrun ⊢
      rcases hnode : copyNode old (t, d.upon e) with ⟨misuse | copied, u, c⟩
      · rw [hnode] at hrun
        cases hrun
      · obtain ⟨d₁, hnode', rfl, hapart₁⟩ := copyNode_upon hapart hnode
        rw [hnode] at hrun
        rw [hnode']
        dsimp only at hrun ⊢
        rcases hloop : copyChildren depth copied (t.childrenOf old) (u, d₁.upon e) with
          ⟨misuse | _, u', c''⟩
        · rw [hloop] at hrun
          cases hrun
        · obtain ⟨d₂, hloop', rfl, hapart₂⟩ := copyChildren_upon ih hapart₁ hloop
          rw [hloop] at hrun
          cases hrun
          exact ⟨d₂, by rw [hloop'], rfl, hapart₂⟩
    · rw [copyWithin, run_bind, run_copyNode_foreign hold] at hrun
      cases hrun

theorem copy_upon (hrun : copy root (t, e) = (.ok new, t', c')) :
    ∃ d, copy root (t, .empty) = (.ok new, t', d) ∧ c' = d.upon e ∧ d.Apart e := by
  rw [← e.empty_upon] at hrun
  exact copyWithin_upon CopyState.apart_empty hrun

theorem run_copy_foreign (h : ¬t.Allocated root) (e : CopyState) :
    copy root (t, e) = (.error (.foreign root), t, e) := by
  rw [copy, run_bind, run_get]
  dsimp only
  rw [copyWithin, run_bind, run_copyNode_foreign h]

theorem exists_copy (ht : t.Shaped) (hroot : t.Allocated root) :
    ∃ new t' d, copy root (t, .empty) = (.ok new, t', d) ∧
      CopiesMade t (t.preorder root) [] [root] (t.preorder root) t t' d := by
  have hlevels : t.levels root ≤ t.size + 1 := Nat.le_succ_of_le (Nat.sub_le _ _)
  have hstart : Partway t (t.preorder root) [] t CopyState.empty :=
    ⟨rfl, fun _ _ => rfl, rfl, rfl⟩
  obtain ⟨t', d, hrun, hmade⟩ := run_copyWithin_partway ht (ht.nodup_preorder hroot) (t.size + 1)
    root [] [] t .empty hroot hlevels (List.append_nil _).symm hstart
  exact ⟨_, t', d, hrun, hmade⟩

theorem copy_made (ht : t.Shaped) (hrun : copy root (t, e) = (.ok new, t', c')) :
    t.Allocated root ∧ ∃ d, c' = d.upon e ∧ d.Apart e ∧
      CopiesMade t (t.preorder root) [] [root] (t.preorder root) t t' d := by
  have hroot : t.Allocated root := by
    by_contra hroot
    cases hrun.symm.trans (run_copy_foreign hroot e)
  obtain ⟨d, hcopy, rfl, hapart⟩ := copy_upon hrun
  obtain ⟨new', u, d', hcopy', hmade⟩ := exists_copy ht hroot
  cases hcopy.symm.trans hcopy'
  exact ⟨hroot, d, rfl, hapart, hmade⟩

end Copying
end TemplateCheck
