import TemplateCheck.Proofs.Tree.Editing

/-! Structural edits and payloads. An edit makes no node and leaves all payloads as they are, also
when it is a misuse. -/

namespace TemplateCheck

inductive StructuralEdit where
  | addChild (parent child : NodeId)
  | addChildAt (parent : NodeId) (index : Nat) (child : NodeId)
  | addChildren (parent : NodeId) (children : List NodeId)
  | removeChild (parent child : NodeId)
  | removeChildAt (parent : NodeId) (index : Nat)
  | replaceChild (parent old new : NodeId)
  | replaceChildAt (parent : NodeId) (index : Nat) (new : NodeId)
  | clearChildren (parent : NodeId)

def StructuralEdit.perform {P : Type} (t : Tree P) : StructuralEdit → Tree P
  | addChild parent child => (Editing.addChild parent child t).2
  | addChildAt parent index child => (Editing.addChildAt parent index child t).2
  | addChildren parent children => (Editing.addChildren parent children t).2
  | removeChild parent child => (Editing.removeChild parent child t).2
  | removeChildAt parent index => (Editing.removeChildAt parent index t).2
  | replaceChild parent old new => (Editing.replaceChild parent old new t).2
  | replaceChildAt parent index new => (Editing.replaceChildAt parent index new t).2
  | clearChildren parent => (Editing.clearChildren parent t).2

namespace Editing
variable {P α β : Type}

def KeepsPayloads (a : Editing P α) : Prop :=
  ∀ t, (a t).2.size = t.size ∧
    ∀ n, ((a t).2.slot? n).map Slot.payload = (t.slot? n).map Slot.payload

namespace KeepsPayloads

theorem ret (x : α) : KeepsPayloads (pure x : Editing P α) := fun _ => ⟨rfl, fun _ => rfl⟩

theorem fail (misuse : Misuse) : KeepsPayloads (throw misuse : Editing P α) :=
  fun _ => ⟨rfl, fun _ => rfl⟩

theorem bind {a : Editing P α} {f : α → Editing P β} (ha : KeepsPayloads a)
    (hf : ∀ x, KeepsPayloads (f x)) : KeepsPayloads (a >>= f) := by
  intro t
  obtain ⟨hsize, hpayload⟩ := ha t
  rw [run_bind]
  rcases hrun : a t with ⟨misuse | x, t'⟩
  · rw [hrun] at hsize hpayload
    exact ⟨hsize, hpayload⟩
  · rw [hrun] at hsize hpayload
    obtain ⟨hsize', hpayload'⟩ := hf x t'
    exact ⟨hsize'.trans hsize, fun n => (hpayload' n).trans (hpayload n)⟩

theorem query (question : Tree P → Except Misuse α) : KeepsPayloads (query question) := by
  intro t
  rw [run_query]
  exact ⟨rfl, fun _ => rfl⟩

theorem modifySlot (n : NodeId) {change : Slot P → Slot P}
    (h : ∀ slot, (change slot).payload = slot.payload) : KeepsPayloads (modifySlot n change) := by
  refine (query _).bind fun _ t => ⟨Tree.size_update, fun m => ?_⟩
  show ((t.update n change).slot? m).map Slot.payload = _
  rw [Tree.slot?_update]
  split
  · rw [Option.map_map]
    exact congrArg (Option.map · (t.slot? m)) (funext h)
  · rfl

theorem setParent (n : NodeId) (parent : Option NodeId) :
    KeepsPayloads (P := P) (setParent n parent) :=
  modifySlot n fun _ => rfl

theorem setChildren (n : NodeId) (children : List NodeId) :
    KeepsPayloads (P := P) (setChildren n children) :=
  modifySlot n fun _ => rfl

theorem checkAttachable (parent child : NodeId) :
    KeepsPayloads (P := P) (checkAttachable parent child) := by
  refine (query _).bind fun existing => ?_
  have hnotAbove : KeepsPayloads (P := P) (do
      let ancestors ← Editing.query (·.ancestors parent)
      if child ∈ ancestors then throw (.cycle child parent)) := by
    refine (query _).bind fun ancestors => ?_
    split
    · exact fail _
    · exact ret ()
  cases existing with
  | some existing => exact fail _
  | none =>
    dsimp only
    split
    · exact (fail _).bind fun _ => hnotAbove
    · exact hnotAbove

theorem addChildAt (parent : NodeId) (index : Nat) (child : NodeId) :
    KeepsPayloads (P := P) (addChildAt parent index child) := by
  refine (checkAttachable parent child).bind fun _ => (query _).bind fun children => ?_
  have hlink : KeepsPayloads (P := P) (do
      Editing.setChildren parent (children.insertIdx index child)
      Editing.setParent child (some parent)) :=
    (setChildren parent _).bind fun _ => setParent child _
  dsimp only
  split
  · exact (fail _).bind fun _ => hlink
  · exact hlink

theorem addChild (parent child : NodeId) : KeepsPayloads (P := P) (addChild parent child) :=
  (query _).bind fun _ => addChildAt parent _ child

theorem addChildren (parent : NodeId) (children : List NodeId) :
    KeepsPayloads (P := P) (addChildren parent children) := by
  induction children with
  | nil => exact ret ()
  | cons child rest ih => exact (addChild parent child).bind fun _ => ih

theorem removeChildAt (parent : NodeId) (index : Nat) :
    KeepsPayloads (P := P) (removeChildAt parent index) :=
  (query _).bind fun child => (query _).bind fun _ => (setChildren parent _).bind fun _ =>
    (setParent child none).bind fun _ => ret child

theorem indexOfChild (parent child : NodeId) :
    KeepsPayloads (P := P) (indexOfChild parent child) := by
  refine (query _).bind fun index => ?_
  cases index with
  | none => exact fail _
  | some index => exact ret index

theorem removeChild (parent child : NodeId) :
    KeepsPayloads (P := P) (removeChild parent child) :=
  (indexOfChild parent child).bind fun index => (removeChildAt parent index).bind fun _ => ret ()

theorem replaceChildAt (parent : NodeId) (index : Nat) (new : NodeId) :
    KeepsPayloads (P := P) (replaceChildAt parent index new) := by
  refine (query _).bind fun old => ?_
  split
  · exact ret old
  · exact (checkAttachable parent new).bind fun _ => (query _).bind fun _ =>
      (setChildren parent _).bind fun _ => (setParent old none).bind fun _ =>
        (setParent new _).bind fun _ => ret old

theorem replaceChild (parent old new : NodeId) :
    KeepsPayloads (P := P) (replaceChild parent old new) :=
  (indexOfChild parent old).bind fun index =>
    (replaceChildAt parent index new).bind fun _ => ret ()

theorem orphanAll (children : List NodeId) : KeepsPayloads (P := P) (orphanAll children) := by
  induction children with
  | nil => exact ret ()
  | cons child rest ih => exact (setParent child none).bind fun _ => ih

theorem clearChildren (parent : NodeId) : KeepsPayloads (P := P) (clearChildren parent) :=
  (query _).bind fun children => (setChildren parent []).bind fun _ => orphanAll children

end KeepsPayloads
end Editing

namespace StructuralEdit
variable {P : Type}

theorem keepsPayloads (t : Tree P) (e : StructuralEdit) :
    (e.perform t).size = t.size ∧
      ∀ n, ((e.perform t).slot? n).map Slot.payload = (t.slot? n).map Slot.payload := by
  cases e with
  | addChild parent child => exact Editing.KeepsPayloads.addChild parent child t
  | addChildAt parent index child => exact Editing.KeepsPayloads.addChildAt parent index child t
  | addChildren parent children => exact Editing.KeepsPayloads.addChildren parent children t
  | removeChild parent child => exact Editing.KeepsPayloads.removeChild parent child t
  | removeChildAt parent index => exact Editing.KeepsPayloads.removeChildAt parent index t
  | replaceChild parent old new => exact Editing.KeepsPayloads.replaceChild parent old new t
  | replaceChildAt parent index new => exact Editing.KeepsPayloads.replaceChildAt parent index new t
  | clearChildren parent => exact Editing.KeepsPayloads.clearChildren parent t

theorem shaped {t : Tree P} (ht : t.Shaped) (e : StructuralEdit) :
    (e.perform t).Shaped := by
  cases e with
  | addChild parent child => exact Editing.keepsShape_addChild parent child t ht
  | addChildAt parent index child => exact Editing.keepsShape_addChildAt parent index child t ht
  | addChildren parent children => exact Editing.keepsShape_addChildren parent children t ht
  | removeChild parent child => exact Editing.keepsShape_removeChild parent child t ht
  | removeChildAt parent index => exact Editing.keepsShape_removeChildAt parent index t ht
  | replaceChild parent old new => exact Editing.keepsShape_replaceChild parent old new t ht
  | replaceChildAt parent index new => exact Editing.keepsShape_replaceChildAt parent index new t ht
  | clearChildren parent => exact Editing.keepsShape_clearChildren parent t ht

end StructuralEdit
end TemplateCheck
