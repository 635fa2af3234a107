import TemplateCheck.Proofs.Types.Session

/-! The tags of stored element types are tags that stand for themselves. -/

namespace TemplateCheck

def TypeForm.Tagged {τ : Type} : TypeForm τ → Prop
  | .element (.named tag) => TypeStore.elementTag tag = .named tag
  | _ => True

namespace TypeStore
variable {s s' : TypeStore} {α β : Type} {d : TypeData}

def Tagged (s : TypeStore) : Prop := ∀ t d, s.lookup t = some d → d.Tagged

def KeepsTags (m : Making α) : Prop := ∀ s : TypeStore, s.Tagged → (m s).2.Tagged

theorem Tagged.of_types (h : s.Tagged) (htypes : s'.types = s.types) : s'.Tagged := by
  intro t d hd
  rw [lookup_congr htypes] at hd
  exact h t d hd

theorem tagged_empty (place : TypeData → Fin 64) : (TypeStore.empty place).Tagged := by
  intro t d hd
  have hfixed := Session.fixedId?_of_lookup_empty hd
  cases d with
  | element tag =>
    cases tag with
    | named tag => cases hfixed
    | _ => trivial
  | _ => trivial

theorem KeepsTags.bind {m : Making α} {f : α → Making β} (hm : KeepsTags m)
    (hf : ∀ a, KeepsTags (f a)) : KeepsTags (m >>= f) :=
  fun s h => hf (m s).1 (m s).2 (hm s h)

theorem KeepsTags.map {m : Making α} (hm : KeepsTags m) (g : α → β) : KeepsTags (g <$> m) :=
  fun s h => hm s h

theorem KeepsTags.get {f : TypeStore → Making β} (hf : ∀ s, KeepsTags (f s)) :
    KeepsTags (MonadState.get >>= f) :=
  fun s h => hf s s h

theorem keepsTags_pure (a : α) : KeepsTags (pure a) := fun _ h => h

theorem keepsTags_of_types {m : Making α} (h : ∀ s, (m s).2.types = s.types) : KeepsTags m :=
  fun s hs => hs.of_types (h s)

theorem keepsTags_intern (hd : d.Tagged) : KeepsTags (intern d) := by
  intro s h
  rcases s.intern_cases d with ⟨t, -, hintern⟩ | ⟨-, -, hintern⟩
  · rwa [hintern]
  · rw [hintern]
    intro t e he
    rw [lookup_store] at he
    split at he
    · cases he
      exact hd
    · exact h t e he

theorem keepsTags_element (tag : String) : KeepsTags (element tag) := by
  unfold element
  split
  · exact keepsTags_pure _
  · split
    · exact keepsTags_pure _
    next hspecial hany =>
      refine keepsTags_intern ?_
      rw [TypeForm.Tagged, elementTag, if_neg hspecial, if_neg hany]

theorem keepsTags_record (properties : List (RecordProperty TypeId)) :
    KeepsTags (record properties) := by
  refine KeepsTags.bind (keepsTags_of_types fun s => ?_) fun _ => keepsTags_intern trivial
  rw [recordShape]
  split <;> rfl

theorem keepsTags_template (parameters : List (TemplateParameter TypeId)) (result : TypeId) :
    KeepsTags (template parameters result) :=
  KeepsTags.bind (keepsTags_of_types fun s => by rw [rememberTemplate_run])
    fun _ => keepsTags_intern trivial

theorem keepsTags_function (parameters : List (FunctionParameter TypeId)) (result : TypeId) :
    KeepsTags (function parameters result) :=
  KeepsTags.bind (keepsTags_of_types fun s => by rw [rememberFunction_run])
    fun _ => keepsTags_intern trivial

theorem keepsTags_finish (form : List TypeId → TypeData) (h : ∀ members, (form members).Tagged)
    (c : Combined) : KeepsTags (finish form c) := by
  cases c with
  | one t => exact keepsTags_pure t
  | many members =>
    exact KeepsTags.bind (keepsTags_of_types fun s => by rw [rememberList_run])
      fun _ => keepsTags_intern (h members)

theorem keepsTags_union (types : List TypeId) : KeepsTags (union types) := by
  intro s h
  match types with
  | [] => exact h
  | [t] => exact h
  | t :: u :: rest =>
    rw [union_run _ (Nat.le_add_left ..)]
    exact keepsTags_finish .union (fun _ => trivial) _ s h

theorem keepsTags_intersection (types : List TypeId) : KeepsTags (intersection types) := by
  intro s h
  match types with
  | [] => exact h
  | [t] => exact h
  | t :: u :: rest =>
    rw [intersection_run _ (Nat.le_add_left ..)]
    exact keepsTags_finish .intersection (fun _ => trivial) _ s h

theorem keepsTags_make (c : Call) : KeepsTags c.make := by
  cases c with
  | element tag => exact keepsTags_element tag
  | record properties => exact keepsTags_record properties
  | template parameters result => exact keepsTags_template parameters result
  | function parameters result => exact keepsTags_function parameters result
  | union types => exact keepsTags_union types
  | intersection types => exact keepsTags_intersection types
  | _ => exact keepsTags_intern trivial

end TypeStore

theorem Session.Reached.tagged {σ : Session} (h : σ.Reached) : σ.store.Tagged := by
  obtain ⟨place, hr⟩ := h
  induction hr with
  | refl => exact TypeStore.tagged_empty place
  | call _ c _ ih => exact TypeStore.keepsTags_make c _ ih

end TemplateCheck
