import TemplateCheck.Portable.Basic

/-! The parts of portable types, and induction on them. -/

namespace TemplateCheck.PortableType
variable {p q : PortableType}

/-- The parts of a portable type, the result of a signature last. -/
def children : PortableType → List PortableType
  | list item | set item | iterable item => [item]
  | map key value | legacyObjectMap key value => [key, value]
  | record properties => properties.map (·.type)
  | template parameters result => parameters.map (·.type) ++ [result]
  | function parameters result => parameters.map (·.type) ++ [result]
  | union members | intersection members => members
  | _ => []

theorem sizeOf_child (h : q ∈ p.children) : sizeOf q < sizeOf p := by
  cases p with
  | list item | set item | iterable item =>
    obtain rfl := List.mem_singleton.1 h
    simp
  | map key value | legacyObjectMap key value =>
    rcases List.mem_cons.1 h with rfl | h
    · simp only [map.sizeOf_spec, legacyObjectMap.sizeOf_spec]
      omega
    · obtain rfl := List.mem_singleton.1 h
      simp only [map.sizeOf_spec, legacyObjectMap.sizeOf_spec]
      omega
  | union members | intersection members =>
    have hlt : sizeOf q < sizeOf members := List.sizeOf_lt_of_mem h
    simp only [union.sizeOf_spec, intersection.sizeOf_spec]
    omega
  | record properties =>
    obtain ⟨⟨name, optional, type⟩, hmem, rfl⟩ := List.mem_map.1 h
    have hlt := List.sizeOf_lt_of_mem hmem
    simp only [RecordProperty.mk.sizeOf_spec, record.sizeOf_spec] at hlt ⊢
    omega
  | template parameters result =>
    rcases List.mem_append.1 h with h | h
    · obtain ⟨⟨name, kind, required, type⟩, hmem, rfl⟩ := List.mem_map.1 h
      have hlt := List.sizeOf_lt_of_mem hmem
      simp only [TemplateParameter.mk.sizeOf_spec, template.sizeOf_spec] at hlt ⊢
      omega
    · obtain rfl := List.mem_singleton.1 h
      simp only [template.sizeOf_spec]
      omega
  | function parameters result =>
    rcases List.mem_append.1 h with h | h
    · obtain ⟨⟨name, variadic, type⟩, hmem, rfl⟩ := List.mem_map.1 h
      have hlt := List.sizeOf_lt_of_mem hmem
      simp only [FunctionParameter.mk.sizeOf_spec, function.sizeOf_spec] at hlt ⊢
      omega
    · obtain rfl := List.mem_singleton.1 h
      simp only [function.sizeOf_spec]
      omega
  | _ => cases h

theorem induct {motive : PortableType → Prop}
    (step : ∀ p, (∀ q ∈ p.children, motive q) → motive p) (p : PortableType) : motive p :=
  step p fun q _ => induct step q
termination_by sizeOf p
decreasing_by exact sizeOf_child ‹_›

end TemplateCheck.PortableType
