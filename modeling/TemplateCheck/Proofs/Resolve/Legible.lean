import TemplateCheck.Proofs.TypeExpr.Layout
import TemplateCheck.Proofs.Types.Structure
import TemplateCheck.Proofs.Types.Tags
import TemplateCheck.Resolve.Basic

/-! Types that can be written down, and that the constructors make more of them. -/

namespace TemplateCheck

/-- The pool results from registering messages and enums. -/
inductive Proto.Pool.Built : Proto.Pool → Prop where
  | empty (number : Nat) : Built (.empty number)
  | addMessage {p q : Proto.Pool} {m : Proto.MessageDescriptor} (h : Built p)
      (hm : p.addMessage m = .ok q) : Built q
  | addEnum {p q : Proto.Pool} {e : Proto.EnumDescriptor} (h : Built p)
      (he : p.addEnum e = .ok q) : Built q

namespace Proto.Pool
variable {p : Pool} {name : String}

theorem Built.different (h : p.Built) : ∀ m ∈ p.messages, ∀ e ∈ p.enums, m.name ≠ e.name := by
  induction h with
  | empty number =>
    intro m hm
    cases hm
  | @addMessage p q m _ hm ih =>
    rw [Pool.addMessage] at hm
    split at hm
    · cases hm
    next hnew =>
      cases hm
      intro n hn e he heq
      rcases List.mem_append.1 hn with hn | hn
      · exact ih n hn e he heq
      · obtain rfl := List.mem_singleton.1 hn
        have hany : p.enums.any (·.name == n.name) := List.any_eq_true.2 ⟨e, he, by simp [heq]⟩
        exact hnew (by rw [declares, hany, Bool.or_true])
  | @addEnum p q e _ he ih =>
    rw [Pool.addEnum] at he
    split at he
    · cases he
    next hnew =>
      cases he
      intro m hm f hf heq
      rcases List.mem_append.1 hf with hf | hf
      · exact ih m hm f hf heq
      · obtain rfl := List.mem_singleton.1 hf
        have hany : p.messages.any (·.name == f.name) := List.any_eq_true.2 ⟨m, hm, by simp [heq]⟩
        exact hnew (by rw [declares, hany, Bool.true_or])

theorem mem_of_message? {m : Registered MessageDescriptor} (h : p.message? name = some m) :
    m.descriptor ∈ p.messages ∧ m.descriptor.name = name := by
  obtain ⟨d, hd, rfl⟩ := Option.map_eq_some_iff.1 h
  exact ⟨List.mem_of_find?_eq_some hd, by simpa using List.find?_some hd⟩

theorem mem_of_enum? {e : Registered EnumDescriptor} (h : p.enum? name = some e) :
    e.descriptor ∈ p.enums ∧ e.descriptor.name = name := by
  obtain ⟨d, hd, rfl⟩ := Option.map_eq_some_iff.1 h
  exact ⟨List.mem_of_find?_eq_some hd, by simpa using List.find?_some hd⟩

theorem declares_of_message? {m : Registered MessageDescriptor} (h : p.message? name = some m) :
    p.declares name := by
  obtain ⟨hm, hname⟩ := mem_of_message? h
  have hany : p.messages.any (·.name == name) := List.any_eq_true.2 ⟨_, hm, by simp [hname]⟩
  rw [declares, hany, Bool.true_or]

theorem declares_of_enum? {e : Registered EnumDescriptor} (h : p.enum? name = some e) :
    p.declares name := by
  obtain ⟨he, hname⟩ := mem_of_enum? h
  have hany : p.enums.any (·.name == name) := List.any_eq_true.2 ⟨_, he, by simp [hname]⟩
  rw [declares, hany, Bool.or_true]

theorem Built.message?_of_enum? (h : p.Built) {e : Registered EnumDescriptor}
    (he : p.enum? name = some e) : p.message? name = none := by
  cases hm : p.message? name with
  | none => rfl
  | some m =>
    obtain ⟨hmem, hname⟩ := mem_of_message? hm
    obtain ⟨hmem', hname'⟩ := mem_of_enum? he
    exact absurd (hname.trans hname'.symm) (h.different _ hmem _ hmem')

end Proto.Pool

open TypeExpr TypeStore

def TemplateParameter.Written {τ : Type} (p : TemplateParameter τ) : Prop :=
  match p.kind with
  | .regular => IsPlainName p.name
  | .htmlAttribute => ∃ text, IsAttributeName text ∧ p.name = ParameterName.ofAttribute text

namespace TypeStore
variable {pool : Proto.Pool} {s s' : TypeStore} {t u : TypeId} {d : TypeData}

def LegibleForm (pool : Proto.Pool) (s : TypeStore) : TypeData → Prop
  | .element (.named tag) =>
    IsPlainName tag ∧ tag ∉ ["null", "undefined", "true", "false"] ∧ elementTag tag = .named tag
  | .record properties => ∀ p ∈ properties, IsPlainName p.name
  | .template shape =>
    (∀ p ∈ shape.parameters, p.Written) ∧ (shape.parameters.map (·.name)).Nodup ∧
      Resolving.isTemplateResult (s.kind shape.result)
  | .function shape =>
    (∀ p ∈ shape.parameters, IsPlainName p.name) ∧ (shape.parameters.map (·.name)).Nodup
  | .message m => pool.message? m.descriptor.name = some m
  | .enum (.descriptor e) => pool.enum? e.descriptor.name = some e
  | .enum _ => False
  | _ => True

structure Legible (pool : Proto.Pool) (s : TypeStore) (t : TypeId) : Prop where
  known : s.Known t
  forms : s.Throughout (s.LegibleForm pool) t

theorem Grows.legibleForm (hgrows : s.Grows s') (hknown : ∀ p ∈ d.parts, s.Known p)
    (h : s.LegibleForm pool d) : s'.LegibleForm pool d := by
  cases d with
  | template shape =>
    have hresult : s.Known shape.result := hknown _ (by simp [TypeForm.parts])
    refine ⟨h.1, h.2.1, ?_⟩
    rw [kind, hgrows.data hresult]
    exact h.2.2
  | element tag =>
    cases tag with
    | named tag => exact h
    | _ => trivial
  | enum e =>
    cases e with
    | descriptor e => exact h
    | _ => exact h
  | _ => exact h

namespace Legible

theorem part (h : s.Legible pool t) (hs : s.Sound) (hu : u ∈ (s.data t).parts) :
    s.Legible pool u := by
  obtain ⟨-, hparts⟩ := h.forms
  exact ⟨hs.known_part h.known hu, hparts u hu⟩

theorem form (h : s.Legible pool t) : s.LegibleForm pool (s.data t) := by
  obtain ⟨hform, -⟩ := h.forms
  exact hform

theorem grows (h : s.Legible pool t) (hs : s.Sound) (hgrows : s.Grows s') :
    s'.Legible pool t := by
  obtain ⟨hknown, hforms⟩ := h
  refine ⟨hgrows.known hknown, ?_⟩
  induction hforms with
  | @intro t hform _ ih =>
    have hparts : ∀ p ∈ (s.data t).parts, s.Known p := fun p hp => hs.known_part hknown hp
    refine .of_data (hgrows.data hknown) (hgrows.legibleForm hparts hform) fun p hp => ?_
    exact ih p hp (hparts p hp)

theorem of_stored {made : TypeId × TypeStore} (hs : s.Sound) (h : s.Stored made d)
    (hform : s.LegibleForm pool d) (hparts : ∀ p ∈ d.parts, s.Legible pool p) :
    made.2.Legible pool made.1 := by
  refine ⟨h.known, .of_data (data_of_lookup h.lookup) ?_ fun p hp => ?_⟩
  · exact h.grows.legibleForm (fun p hp => (hparts p hp).known) hform
  · exact ((hparts p hp).grows hs h.grows).forms

theorem fixed (hfixed : d.fixedId? = some t) (hform : s.LegibleForm pool d) :
    s.Legible pool t := by
  refine ⟨s.known_fixed hfixed, .of_data (s.data_fixed hfixed) hform fun p hp => ?_⟩
  rw [parts_of_fixedId? hfixed] at hp
  cases hp

theorem error : s.Legible pool .error := fixed (d := .error) rfl trivial

theorem ofIntrinsic (kind : Intrinsic) : s.Legible pool (.ofIntrinsic kind) :=
  fixed (d := .intrinsic kind) rfl trivial

theorem unionMember (h : s.Legible pool t) (hs : s.Sound) (hu : u ∈ s.unionMembers t) :
    s.Legible pool u := by
  rcases mem_unionMembers.1 hu with ⟨members, hd, hu⟩ | ⟨-, rfl⟩
  · exact h.part hs (by rwa [hd])
  · exact h

theorem intersectionMember (h : s.Legible pool t) (hs : s.Sound)
    (hu : u ∈ s.intersectionMembers t) : s.Legible pool u := by
  rcases mem_intersectionMembers.1 hu with ⟨members, hd, hu⟩ | ⟨-, rfl⟩
  · exact h.part hs (by rwa [hd])
  · exact h

end Legible
end TypeStore
end TemplateCheck
