import TemplateCheck.Proofs.ParameterName
import TemplateCheck.Proofs.Resolve.Legible
import TemplateCheck.Proofs.TypeExpr.WellFormed
import TemplateCheck.Proofs.Types.Showing

/-! The expression of a legible type is well formed, apart from errors and from attributes that
would begin with a hyphen. -/

namespace TemplateCheck
open TypeExpr TypeStore

/-- No attribute parameter has a name that begins with an upper-case letter. -/
def TypeForm.LowerAttributes {τ : Type} : TypeForm τ → Prop
  | .template shape => ∀ p ∈ shape.parameters, p.kind = .htmlAttribute →
    ∀ c ∈ p.name.toList.head?, c.isUpper = false
  | _ => True

/-- The names of the pool are dotted names that mean nothing else in an expression. -/
def Proto.Pool.Apart (pool : Proto.Pool) : Prop :=
  ∀ name, pool.declares name → IsTypeName name ∧ name ∉ Registry.builtins.map (·.1)

theorem isTypeName_intrinsic (kind : Intrinsic) (hunknown : kind ≠ .unknown) (hnull : kind ≠ .null)
    (hundefined : kind ≠ .undefined) : IsTypeName kind.name := by
  have hnames : ∀ kind : Intrinsic, kind ≠ .unknown → kind ≠ .null → kind ≠ .undefined →
      IsPlainName kind.name ∧ kind.name ∉ ["null", "undefined", "true", "false"] := by
    intro kind
    cases kind <;> decide
  obtain ⟨hplain, hkeyword⟩ := hnames kind hunknown hnull hundefined
  exact ⟨hplain.dotted, hkeyword⟩

theorem wellFormed_intrinsic (kind : Intrinsic) : WellFormed (ofForm (.intrinsic kind)) := by
  cases kind with
  | unknown => exact .unknown _
  | null | undefined => exact .literal _ trivial
  | _ => exact .named _ (isTypeName_intrinsic _ (by decide) (by decide) (by decide))

theorem isTypeName_generic :
    ∀ name ∈ ["html", "list", "set", "iterable", "map", "legacy_object_map"], IsTypeName name := by
  intro name hname
  have hplain : IsPlainName name := by
    revert name
    decide
  have hkeyword : name ∉ ["null", "undefined", "true", "false"] := by
    revert name
    decide
  exact ⟨hplain.dotted, hkeyword⟩

theorem TemplateParameter.Written.spelled {p : TemplateParameter TypeExpr} (h : p.Written)
    (hlower : p.kind = .htmlAttribute → ∀ c ∈ p.name.toList.head?, c.isUpper = false) :
    (ofTemplateParameter p).Spelled := by
  unfold TemplateParameter.Written at h
  unfold TemplateParam.Spelled ofTemplateParameter TemplateParameter.spelling
  cases hkind : p.kind with
  | regular =>
    rw [hkind] at h
    exact And.intro rfl h
  | htmlAttribute =>
    rw [hkind] at h
    obtain ⟨text, htext, hname⟩ := h
    have hplain : IsIdentifier p.name.toList := by
      rw [hname]
      exact ParameterName.isIdentifier_ofAttribute htext
    have hhyphen := ParameterName.hyphen_not_mem_of_isIdentifier hplain
    exact Exists.intro _ ⟨rfl, (ParameterName.ofAttribute_toAttribute hhyphen).symm,
      ParameterName.isAttributeName_toAttribute hplain (hlower hkind)⟩

namespace TypeStore
variable {pool : Proto.Pool} {s : TypeStore} {t : TypeId} {d : TypeData}

theorem wellFormed_ofForm (hnames : pool.Apart) (hlegible : s.LegibleForm pool d)
    (herror : d ≠ .error) (hlower : d.LowerAttributes) (hrecorded : s.Recorded d)
    (hparts : ∀ p ∈ d.parts, WellFormed (s.expression p)) :
    WellFormed (ofForm (d.mapParts s.expression)) := by
  have hgeneric {name : String} (args : List TypeId)
      (hname : name ∈ ["html", "list", "set", "iterable", "map", "legacy_object_map"])
      (hargs : ∀ p ∈ args, WellFormed (s.expression p)) :
      WellFormed (.generic .unknown name (args.map s.expression)) :=
    .generic _ (isTypeName_generic name hname) (List.forall_mem_map.2 hargs)
  cases d with
  | error => exact absurd rfl herror
  | intrinsic kind => exact wellFormed_intrinsic kind
  | element tag =>
    refine .generic _ (isTypeName_generic "html" (by simp)) (List.forall_mem_singleton.2 ?_)
    cases tag with
    | wildcard => exact .unknown _
    | any => exact .named _ (isTypeName_intrinsic .any (by decide) (by decide) (by decide))
    | named tag =>
      obtain ⟨hplain, hkeyword, -⟩ := hlegible
      exact .named _ ⟨hplain.dotted, hkeyword⟩
  | list item => exact hgeneric [item] (by simp) hparts
  | set item => exact hgeneric [item] (by simp) hparts
  | iterable item => exact hgeneric [item] (by simp) hparts
  | map key value => exact hgeneric [key, value] (by simp) hparts
  | legacyObjectMap key value => exact hgeneric [key, value] (by simp) hparts
  | record properties =>
    refine .record _ ?_ ?_
    · exact List.forall_mem_map.2 (List.forall_mem_map.2 hlegible)
    · have hparts := List.forall_mem_map.1 hparts
      exact List.forall_mem_map.2 (List.forall_mem_map.2 fun p hp => hparts p hp)
  | template shape =>
    obtain ⟨hwritten, -, -⟩ := hlegible
    obtain ⟨hparameters, hresult⟩ := List.forall_mem_append.1 hparts
    refine .template _ ?_ ?_ (hresult _ (List.mem_singleton_self _))
    · refine List.forall_mem_map.2 (List.forall_mem_map.2 fun p hp => ?_)
      exact TemplateParameter.Written.spelled (hwritten p hp) (hlower p hp)
    · have hparameters := List.forall_mem_map.1 hparameters
      exact List.forall_mem_map.2 (List.forall_mem_map.2 fun p hp => hparameters p hp)
  | function shape =>
    obtain ⟨hplain, -⟩ := hlegible
    obtain ⟨hparameters, hresult⟩ := List.forall_mem_append.1 hparts
    refine .function _ ?_ ?_ (hresult _ (List.mem_singleton_self _))
    · exact List.forall_mem_map.2 (List.forall_mem_map.2 fun p hp => ⟨rfl, hplain p hp⟩)
    · have hparameters := List.forall_mem_map.1 hparameters
      exact List.forall_mem_map.2 (List.forall_mem_map.2 fun p hp => hparameters p hp)
  | union members =>
    have hperm := Order.sortBy_perm
      (fun a b => decide (memberText .unionMember a ≤ memberText .unionMember b))
      (members.map s.expression)
    refine .union _ ?_ fun e he => ?_
    · rw [sortMembers, hperm.length_eq, List.length_map]
      exact hrecorded.2.two
    · obtain ⟨p, hp, rfl⟩ := List.mem_map.1 (hperm.mem_iff.1 he)
      exact hparts p hp
  | intersection members =>
    refine .intersection _ ?_ (List.forall_mem_map.2 hparts)
    rw [List.length_map]
    exact hrecorded.2.two
  | literal value => exact .literal _ trivial
  | message m => exact .named _ (hnames _ (Proto.Pool.declares_of_message? hlegible)).1
  | enum e =>
    cases e with
    | descriptor e => exact .named _ (hnames _ (Proto.Pool.declares_of_enum? hlegible)).1
    | _ => exact False.elim hlegible

theorem Legible.wellFormed (h : s.Legible pool t) (hs : s.Sound) (hnames : pool.Apart)
    (herror : s.Throughout (· ≠ .error) t) (hlower : s.Throughout TypeForm.LowerAttributes t) :
    WellFormed (s.expression t) := by
  induction herror with
  | @intro t herror _ ih =>
    obtain ⟨hlower, hlowers⟩ := hlower
    have hdata := h.known.lookup_data
    rw [hs.expression hdata]
    refine wellFormed_ofForm hnames h.form herror hlower (hs.admits t _ hdata).recorded ?_
    exact fun p hp => ih p hp (h.part hs hp) (hlowers p hp)

end TypeStore
end TemplateCheck
