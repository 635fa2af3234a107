import TemplateCheck.Proofs.Tree.Workspace

/-! An edit that ends in a misuse leaves the tree as it was. Adding several children is one edit for
each child, so those before the misuse stay. -/

namespace TemplateCheck

namespace Editing
variable {P α β : Type} {t : Tree P} {misuse : Misuse}

/-- A misuse is found before anything is changed. -/
def AllOrNothing (a : Editing P α) (t : Tree P) : Prop :=
  ∀ misuse, (a t).1 = .error misuse → (a t).2 = t

namespace AllOrNothing

theorem of_error {a : Editing P α} (h : a t = (.error misuse, t)) : AllOrNothing a t := by
  intro _ _
  rw [h]

theorem of_ok {a : Editing P α} {x : α} {t' : Tree P} (h : a t = (.ok x, t')) :
    AllOrNothing a t := by
  intro misuse herror
  rw [h] at herror
  cases herror

theorem query {question : Tree P → Except Misuse α} {f : α → Editing P β}
    (hf : ∀ x, AllOrNothing (f x) t) : AllOrNothing (Editing.query question >>= f) t := by
  intro misuse herror
  rw [run_bind, run_query] at herror ⊢
  cases hanswer : question t with
  | error misuse => rfl
  | ok x =>
    rw [hanswer] at herror
    exact hf x misuse herror

theorem drop {a : Editing P α} (ha : AllOrNothing a t) :
    AllOrNothing (do let _ ← a) t := by
  intro misuse herror
  rw [run_bind] at herror ⊢
  rcases hrun : a t with ⟨found | x, t'⟩
  · have hsame := ha found (by rw [hrun])
    rwa [hrun] at hsame
  · rw [hrun] at herror
    cases herror

end AllOrNothing

section Edits
variable (h : t.Shaped) (p c x : NodeId) (i : Nat)
include h

theorem allOrNothing_addChildAt : AllOrNothing (addChildAt p i c) t := by
  rcases addChildAt_cases h p i c with ⟨misuse, hrun⟩ | ⟨hrun, -⟩
  · exact .of_error hrun
  · exact .of_ok hrun

theorem allOrNothing_addChild : AllOrNothing (addChild p c) t :=
  .query fun _ => allOrNothing_addChildAt h p c _

theorem allOrNothing_removeChildAt : AllOrNothing (removeChildAt p i) t := by
  rcases removeChildAt_cases h p i with ⟨misuse, hrun⟩ | ⟨c, hrun, -⟩
  · exact .of_error hrun
  · exact .of_ok hrun

theorem allOrNothing_replaceChildAt : AllOrNothing (replaceChildAt p i x) t := by
  rcases replaceChildAt_cases h p i x with ⟨misuse, hrun⟩ | hrun | ⟨c, hrun, -⟩
  · exact .of_error hrun
  · exact .of_ok hrun
  · exact .of_ok hrun

theorem allOrNothing_clearChildren : AllOrNothing (clearChildren p) t := by
  rcases clearChildren_cases h p with ⟨misuse, hrun⟩ | ⟨t', hrun, -⟩
  · exact .of_error hrun
  · exact .of_ok hrun

omit h in
theorem allOrNothing_indexOfChild {f : Nat → Editing P α} (hf : ∀ i, AllOrNothing (f i) t) :
    AllOrNothing (indexOfChild p c >>= f) t := by
  intro misuse herror
  rw [run_bind, indexOfChild, run_bind, run_query] at herror ⊢
  cases hindex : t.childIndex p c with
  | error misuse => rfl
  | ok index =>
    cases index with
    | none => rfl
    | some i =>
      rw [hindex] at herror
      exact hf i misuse herror

theorem allOrNothing_removeChild : AllOrNothing (removeChild p c) t :=
  allOrNothing_indexOfChild p c fun i => (allOrNothing_removeChildAt h p i).drop

theorem allOrNothing_replaceChild : AllOrNothing (replaceChild p c x) t :=
  allOrNothing_indexOfChild p c fun i => (allOrNothing_replaceChildAt h p x i).drop

theorem addChildren_misuse {cs : List NodeId} (herror : (addChildren p cs t).1 = .error misuse) :
    ∃ before failing after, cs = before ++ failing :: after ∧
      addChildren p before t = (.ok (), (addChildren p cs t).2) ∧
      addChild p failing (addChildren p cs t).2 = (.error misuse, (addChildren p cs t).2) := by
  induction cs generalizing t with
  | nil => cases herror
  | cons c cs ih =>
    rw [addChildren, run_bind] at herror ⊢
    rcases hrun : addChild p c t with ⟨found | _, t'⟩
    · rw [hrun] at herror
      have hsame := allOrNothing_addChild h p c found (by rw [hrun])
      rw [hrun] at hsame
      subst hsame
      exact ⟨[], c, cs, rfl, rfl, by rw [hrun, Except.error.inj herror]⟩
    · rw [hrun] at herror
      have hshaped := keepsShape_addChild p c t h
      rw [hrun] at hshaped
      obtain ⟨before, failing, after, rfl, hbefore, hfailing⟩ := ih hshaped herror
      refine ⟨c :: before, failing, after, rfl, ?_, hfailing⟩
      rw [addChildren, run_bind, hrun]
      exact hbefore

end Edits
end Editing

namespace Workspace
open Editing
variable {P : Type} [CrossReferring P]

/-- No misuse leaves an edit of a tree half done. -/
theorem misuse_changes_nothing (operations : List (Operation P)) (p c x : NodeId) (i : Nat)
    (cs : List NodeId) :
    AllOrNothing (addChild p c) (run operations).tree ∧
      AllOrNothing (addChildAt p i c) (run operations).tree ∧
      AllOrNothing (removeChild p c) (run operations).tree ∧
      AllOrNothing (removeChildAt p i) (run operations).tree ∧
      AllOrNothing (replaceChild p c x) (run operations).tree ∧
      AllOrNothing (replaceChildAt p i x) (run operations).tree ∧
      AllOrNothing (clearChildren p) (run operations).tree ∧
      ∀ left misuse, addChildren p cs (run operations).tree = (.error misuse, left) →
        ∃ before failing after, cs = before ++ failing :: after ∧
          addChildren p before (run operations).tree = (.ok (), left) ∧
          addChild p failing left = (.error misuse, left) := by
  have h := shaped_run operations
  refine ⟨allOrNothing_addChild h p c, allOrNothing_addChildAt h p c i,
    allOrNothing_removeChild h p c, allOrNothing_removeChildAt h p i,
    allOrNothing_replaceChild h p c x, allOrNothing_replaceChildAt h p x i,
    allOrNothing_clearChildren h p, fun left misuse hrun => ?_⟩
  have herror := addChildren_misuse h p (by rw [hrun])
  rwa [hrun] at herror

theorem misuse_changes_nothing_sample :
    ∃ before failing after, [⟨1⟩, ⟨0⟩, ⟨2⟩] = before ++ failing :: after ∧
      addChildren ⟨0⟩ before (run (sample.take 3)).tree =
        (.ok (), (addChildren ⟨0⟩ [⟨1⟩, ⟨0⟩, ⟨2⟩] (run (sample.take 3)).tree).2) ∧
      addChild ⟨0⟩ failing (addChildren ⟨0⟩ [⟨1⟩, ⟨0⟩, ⟨2⟩] (run (sample.take 3)).tree).2 =
        (.error (.cycle ⟨0⟩ ⟨0⟩),
          (addChildren ⟨0⟩ [⟨1⟩, ⟨0⟩, ⟨2⟩] (run (sample.take 3)).tree).2) := by
  obtain ⟨-, -, -, -, -, -, -, hchildren⟩ :=
    misuse_changes_nothing (sample.take 3) ⟨0⟩ ⟨0⟩ ⟨0⟩ 0 [⟨1⟩, ⟨0⟩, ⟨2⟩]
  exact hchildren _ (.cycle ⟨0⟩ ⟨0⟩) rfl

end Workspace
end TemplateCheck
