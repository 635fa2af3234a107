import TemplateCheck.Proofs.Types.Making

/-! Unions and intersections of types that are ready to be members: nothing is flattened, absorbed
or left out. -/

namespace TemplateCheck

theorem Order.ascending_perm {α : Type} {key : α → Nat} (hkey : Function.Injective key) {l : List α}
    (h : l.Nodup) : (Order.ascending key l).Perm l := by
  have hnodup := (Order.ascends_ascending hkey l).nodup
  exact (List.perm_ext_iff_of_nodup hnodup h).2 fun a => Order.mem_ascending hkey

namespace TypeStore
variable {s : TypeStore} {members : List TypeId} {kind : Kind}

structure Ready (s : TypeStore) (kind : Kind) (members : List TypeId) : Prop where
  two : 2 ≤ members.length
  nodup : members.Nodup
  known : ∀ t ∈ members, s.Known t
  flat : ∀ t ∈ members, s.kind t ≠ kind
  plain : ∀ t ∈ members, t ∉ [TypeId.error, .any, .unknown, .never]

namespace Ready

theorem normal (h : s.Ready kind members) :
    s.Normal kind (Order.ascending TypeId.number members) where
  two := by
    rw [(Order.ascending_perm TypeId.number_injective h.nodup).length_eq]
    exact h.two
  ascends := Order.ascends_ascending TypeId.number_injective members
  flat t ht := h.flat t ((Order.mem_ascending TypeId.number_injective).1 ht)
  plain t ht := h.plain t ((Order.mem_ascending TypeId.number_injective).1 ht)

theorem not_mem (h : s.Ready kind members) {t : TypeId}
    (ht : t ∈ [TypeId.error, .any, .unknown, .never]) : t ∉ members :=
  fun hmem => h.plain t hmem ht

theorem combined (h : s.Ready kind members) {absorbing : List TypeId} {neutral : TypeId}
    {c : Combined} (habsorbing : absorbing ⊆ [TypeId.error, .any, .unknown, .never])
    (hneutral : neutral ∈ [TypeId.error, .any, .unknown, .never])
    (hc : (∃ t ∈ absorbing, t ∈ members ∧ c = .one t) ∨
      (∀ t ∈ absorbing, t ∉ members) ∧ c = .ofMembers neutral (essential neutral members)) :
    c = .many (Order.ascending TypeId.number members) := by
  have hessential : essential neutral members = Order.ascending TypeId.number members := by
    rw [essential, List.filter_eq_self]
    intro t ht
    have ht := (Order.mem_ascending TypeId.number_injective).1 ht
    rw [bne_iff_ne]
    rintro rfl
    exact h.not_mem hneutral ht
  rcases hc with ⟨t, ht, hmem, -⟩ | ⟨-, rfl⟩
  · exact absurd hmem (h.not_mem (habsorbing ht))
  · rw [hessential]
    exact ofMembers_of_two neutral h.normal.two

theorem finish (h : s.Ready kind members) (hs : s.Sound) {form : List TypeId → TypeData}
    (hparts : ∀ members, (form members).parts = members)
    (hform : ∀ {s : TypeStore} {members}, members ∈ s.lists → s.Normal kind members →
      s.Recorded (form members)) :
    s.Stored (TypeStore.finish form (.many (Order.ascending TypeId.number members)) s)
      (form (Order.ascending TypeId.number members)) := by
  refine hs.finish_many (hparts _) hform (fun t ht => ?_) h.normal
  exact h.known t ((Order.mem_ascending TypeId.number_injective).1 ht)

end Ready

theorem flatMap_of_singletons {α : Type} {f : α → List α} {l : List α} (h : ∀ a ∈ l, f a = [a]) :
    l.flatMap f = l := by
  rw [List.flatMap_congr h, List.flatMap_singleton']

theorem unionMembers_self {t : TypeId} (h : s.kind t ≠ .union) : s.unionMembers t = [t] := by
  rw [kind] at h
  rw [unionMembers]
  split
  next hd => exact absurd (hd ▸ rfl) h
  next => rfl

theorem intersectionMembers_self {t : TypeId} (h : s.kind t ≠ .intersection) :
    s.intersectionMembers t = [t] := by
  rw [kind] at h
  rw [intersectionMembers]
  split
  next hd => exact absurd (hd ▸ rfl) h
  next => rfl

theorem Sound.union_ready (hs : s.Sound) (h : s.Ready .union members) :
    s.Stored (TypeStore.union members s) (.union (Order.ascending TypeId.number members)) := by
  have hflat := flatMap_of_singletons fun t ht => unionMembers_self (h.flat t ht)
  rw [union_run members h.two, hflat,
    h.combined (by decide) (by decide) (normalizeUnion_cases members)]
  exact h.finish hs (fun _ => rfl) fun hmem hnormal => ⟨hmem, hnormal⟩

theorem Sound.intersection_ready (hs : s.Sound) (h : s.Ready .intersection members) :
    s.Stored (TypeStore.intersection members s)
      (.intersection (Order.ascending TypeId.number members)) := by
  have hflat := flatMap_of_singletons fun t ht => intersectionMembers_self (h.flat t ht)
  rw [intersection_run members h.two, hflat,
    h.combined (by decide) (by decide) (normalizeIntersection_cases members)]
  exact h.finish hs (fun _ => rfl) fun hmem hnormal => ⟨hmem, hnormal⟩

end TypeStore
end TemplateCheck
