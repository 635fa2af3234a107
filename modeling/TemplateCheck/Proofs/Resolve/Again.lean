import TemplateCheck.Proofs.Resolve.Expressions
import TemplateCheck.Proofs.Resolve.Resolved
import TemplateCheck.Proofs.TypeExpr.Parts
import TemplateCheck.Proofs.Types.Combining
import TemplateCheck.Proofs.Types.Fitting
import TemplateCheck.Proofs.Types.Identity

/-! An expression that is the same as that of a type resolves to this type again. -/

namespace TemplateCheck
open TypeExpr TypeStore Resolving

structure Gives {α : Type} (m : Resolving α) (r : Resolution) (a : α) : Prop where
  result : (m r).1 = a
  quiet : (m r).2.report = r.report
  sound : (m r).2.store.Sound
  grows : r.store.Grows (m r).2.store

/-- The expression resolves to `t` in whatever `s` grows to. -/
def Resolves (s : TypeStore) (resolve : TypeExpr → Resolving TypeId) (e : TypeExpr) (t : TypeId) :
    Prop :=
  ∀ r : Resolution, r.store.Sound → s.Grows r.store → Gives (resolve e) r t

namespace Gives
variable {α β : Type} {m : Resolving α} {f : α → Resolving β} {r : Resolution} {a : α} {b : β}

theorem ret (hs : r.store.Sound) : Gives (pure a) r a := ⟨rfl, rfl, hs, .refl _⟩

theorem bind (hm : Gives m r a)
    (hf : ∀ r' : Resolution, r'.store.Sound → r.store.Grows r'.store → Gives (f a) r' b) :
    Gives (m >>= f) r b := by
  obtain ⟨rfl, hquiet, hsound, hgrows⟩ := hm
  obtain ⟨hresult, hquiet', hsound', hgrows'⟩ := hf _ hsound hgrows
  exact ⟨hresult, hquiet'.trans hquiet, hsound', hgrows.trans hgrows'⟩

theorem run {s : TypeStore} {report : Report} (h : Gives m ⟨s, report⟩ a) :
    ∃ s', m ⟨s, report⟩ = (a, ⟨s', report⟩) := by
  obtain ⟨hresult, hquiet, -, -⟩ := h
  cases hrun : m ⟨s, report⟩ with
  | mk a' r =>
    rw [hrun] at hresult hquiet
    cases hresult
    cases hquiet
    exact ⟨r.store, rfl⟩

theorem made {s : TypeStore} {m : Making TypeId} {t : TypeId} {d : TypeData}
    (ht : s.lookup t = some d) (hgrows : s.Grows r.store)
    (h : r.store.Stored (m r.store) d) : Gives (making m) r t :=
  ⟨h.sound.lookup_injective h.lookup (h.grows.types t d (hgrows.types t d ht)), rfl, h.sound,
    h.grows⟩

section Lists
variable {s : TypeStore} {registry : Registry} {room : Nat}

theorem resolveAll {es : List TypeExpr} {ts : List TypeId}
    (h : List.Forall₂ (Resolves s (resolveWithin registry room)) es ts) (hs : r.store.Sound)
    (hgrows : s.Grows r.store) : Gives (resolveAll registry room es) r ts := by
  induction h generalizing r with
  | nil => exact ret hs
  | cons he _ ih =>
    refine (he r hs hgrows).bind fun r₁ hs₁ hgrows₁ => ?_
    exact (ih hs₁ (hgrows.trans hgrows₁)).bind fun r₂ hs₂ _ => ret hs₂

theorem resolveParts {γ δ : Type} {rule : PartRule γ δ} {resolve : TypeExpr → Resolving TypeId}
    {given : List γ} {parts : List δ}
    (h : List.Forall₂ (fun g part => ∃ t, rule.make g t = part ∧
      Resolves s resolve (rule.type g) t) given parts)
    (hnodup : (given.map rule.name).Nodup) (seen : List String)
    (hseen : ∀ g ∈ given, rule.name g ∉ seen) (hs : r.store.Sound) (hgrows : s.Grows r.store) :
    Gives (resolveParts rule resolve seen given) r (parts, false) := by
  induction h generalizing r seen with
  | nil => exact ret hs
  | @cons g part given parts hg _ ih =>
    obtain ⟨t, rfl, ht⟩ := hg
    obtain ⟨hnew, hnodup⟩ := List.nodup_cons.1 hnodup
    obtain ⟨hg, hgiven⟩ := List.forall_mem_cons.1 hseen
    refine (ht r hs hgrows).bind fun r₁ hs₁ hgrows₁ => ?_
    rw [if_neg (by simpa using hg)]
    refine (ih hnodup _ (fun k hk hmem => ?_) hs₁ (hgrows.trans hgrows₁)).bind
      fun r₂ hs₂ _ => ret hs₂
    rcases List.mem_cons.1 hmem with heq | hmem
    · exact hnew (heq ▸ List.mem_map_of_mem hk)
    · exact hgiven k hk hmem

end Lists
end Gives

namespace TypeStore
variable {s : TypeStore} {t : TypeId} {members types : List TypeId}

theorem Sound.record_again (h : s.Sound) {properties : List (RecordProperty TypeId)}
    (ht : s.lookup t = some (.record properties)) :
    s.Stored (TypeStore.record properties s) (.record properties) := by
  have hadmits := h.admits t _ ht
  obtain ⟨known, hperm, hstored⟩ :=
    h.record (List.forall_mem_map.1 hadmits.parts) hadmits.recorded.2
  have hknown := (hstored.sound.admits _ _ hstored.lookup).recorded
  have hrecords := (hstored.grows.admits hadmits).recorded
  obtain rfl := hstored.sound.record_eq hknown.1 hrecords.1 hknown.2 hperm
  exact hstored

theorem Normal.ready {kind : Kind} (h : s.Normal kind members)
    (hknown : ∀ t ∈ members, s.Known t) (hperm : types.Perm members) : s.Ready kind types where
  two := hperm.length_eq ▸ h.two
  nodup := hperm.nodup_iff.2 h.ascends.nodup
  known t ht := hknown t (hperm.mem_iff.1 ht)
  flat t ht := h.flat t (hperm.mem_iff.1 ht)
  plain t ht := h.plain t (hperm.mem_iff.1 ht)

theorem Normal.ascending {kind : Kind} (h : s.Normal kind members) (hperm : types.Perm members) :
    Order.ascending TypeId.number types = members := by
  refine (Order.ascends_ascending TypeId.number_injective types).eq_of_mem_iff h.ascends fun a => ?_
  rw [Order.mem_ascending TypeId.number_injective, hperm.mem_iff]

theorem Sound.union_again (h : s.Sound) (ht : s.lookup t = some (.union members))
    (hperm : types.Perm members) : s.Stored (TypeStore.union types s) (.union members) := by
  have hadmits := h.admits t _ ht
  have hnormal : s.Normal .union members := hadmits.recorded.2
  have hstored := h.union_ready (hnormal.ready hadmits.parts hperm)
  rwa [hnormal.ascending hperm] at hstored

theorem Sound.intersection_again (h : s.Sound) (ht : s.lookup t = some (.intersection members)) :
    s.Stored (TypeStore.intersection members s) (.intersection members) := by
  have hadmits := h.admits t _ ht
  have hnormal : s.Normal .intersection members := hadmits.recorded.2
  have hstored := h.intersection_ready (hnormal.ready hadmits.parts (.refl _))
  rwa [hnormal.ascending (.refl _)] at hstored

end TypeStore

namespace Resolves
variable {s : TypeStore} {registry : Registry} {room : Nat} {t : TypeId} {d : TypeData}
  {e : TypeExpr} {l : Location}

section Names

theorem of_named {name : String} (hroom : room ≠ 0)
    (h : ∀ s' : TypeStore, s'.Sound → s.Grows s' →
      ∃ make, registry.named? name = some <$> make ∧ s'.Stored (make s') d)
    (ht : s.lookup t = some d) : Resolves s (resolveWithin registry room) (.named l name) t := by
  intro r hs hgrows
  obtain ⟨make, hnamed, hstored⟩ := h r.store hs hgrows
  rw [resolveWithin, if_neg hroom, resolveName, hnamed]
  have hfound : Gives (making (some <$> make)) r (some t) := by
    obtain ⟨hresult, hquiet, hsound, hgrows⟩ := Gives.made ht hgrows hstored
    exact ⟨congrArg some hresult, hquiet, hsound, hgrows⟩
  exact hfound.bind fun r' hs' _ => Gives.ret hs'

theorem intrinsic (hs : s.Sound) (hroom : room ≠ 0) {kind : Intrinsic}
    (ht : s.lookup t = some (.intrinsic kind)) (he : same e (ofForm (.intrinsic kind))) :
    Resolves s (resolveWithin registry room) e t := by
  obtain rfl : t = .ofIntrinsic kind := hs.eq_fixed ⟨_, ht⟩ rfl (data_of_lookup ht)
  have hnamed (hlookup : Registry.builtins.lookup kind.name = some (pure (.ofIntrinsic kind)))
      (he : same e (.named .unknown kind.name)) :
      Resolves s (resolveWithin registry room) e (.ofIntrinsic kind) := by
    obtain ⟨l, rfl⟩ := eq_named_of_same he
    refine of_named hroom (fun s' hs' _ => ⟨pure (.ofIntrinsic kind), ?_, ?_⟩) ht
    · rw [Registry.named?, hlookup]
    · exact .of_lookup hs' (.refl s') (s'.lookup_fixed rfl)
  cases kind with
  | null =>
    obtain ⟨l, rfl⟩ := eq_literal_of_same he
    intro r hs _
    rw [resolveWithin, if_neg hroom]
    exact Gives.ret hs
  | undefined =>
    obtain ⟨l, rfl⟩ := eq_literal_of_same he
    intro r hs _
    rw [resolveWithin, if_neg hroom]
    exact Gives.ret hs
  | _ => exact hnamed rfl he

theorem lookup_builtins (hnames : registry.pool.Apart) {name : String}
    (h : registry.pool.declares name) : Registry.builtins.lookup name = none := by
  have hname := (hnames name h).2
  refine List.lookup_eq_none_iff.2 fun entry hentry => ?_
  rw [bne_iff_ne]
  rintro rfl
  exact hname (List.mem_map_of_mem hentry)

theorem message (haliases : registry.aliases = []) (hnames : registry.pool.Apart)
    (hroom : room ≠ 0) {m : Proto.Registered Proto.MessageDescriptor}
    (hm : registry.pool.message? m.descriptor.name = some m) (ht : s.lookup t = some (.message m))
    (he : same e (ofForm (.message m))) : Resolves s (resolveWithin registry room) e t := by
  obtain ⟨l, rfl⟩ := eq_named_of_same he
  refine of_named hroom (fun s' hs' hgrows => ⟨TypeStore.message m, ?_, ?_⟩) ht
  · have hbuiltin := lookup_builtins hnames (Proto.Pool.declares_of_message? hm)
    rw [Registry.named?, hbuiltin, Registry.alias?, haliases, hm]
    rfl
  · exact hs'.internParts (d := .message m) trivial (List.forall_mem_nil _)

theorem enum (haliases : registry.aliases = []) (hpool : registry.pool.Built)
    (hnames : registry.pool.Apart) (hroom : room ≠ 0) {m : Proto.Registered Proto.EnumDescriptor}
    (hm : registry.pool.enum? m.descriptor.name = some m)
    (ht : s.lookup t = some (.enum (.descriptor m)))
    (he : same e (ofForm (.enum (.descriptor m)))) :
    Resolves s (resolveWithin registry room) e t := by
  obtain ⟨l, rfl⟩ := eq_named_of_same he
  refine of_named hroom (fun s' hs' hgrows => ⟨TypeStore.enum m, ?_, ?_⟩) ht
  · have hbuiltin := lookup_builtins hnames (Proto.Pool.declares_of_enum? hm)
    rw [Registry.named?, hbuiltin, Registry.alias?, haliases, hpool.message?_of_enum? hm, hm]
    rfl
  · exact hs'.internParts (d := .enum (.descriptor m)) trivial (List.forall_mem_nil _)

theorem literal (hroom : room ≠ 0) {value : String} (ht : s.lookup t = some (.literal value))
    (he : same e (ofForm (.literal value))) : Resolves s (resolveWithin registry room) e t := by
  obtain ⟨l, rfl⟩ := eq_literal_of_same he
  intro r hs hgrows
  rw [resolveWithin, if_neg hroom]
  exact Gives.made ht hgrows (hs.internParts (d := .literal value) trivial (List.forall_mem_nil _))

end Names

section Generics

theorem element (hroom : room ≠ 0) {tag : ElementTag} (ht : s.lookup t = some (.element tag))
    (hlegible : s.LegibleForm registry.pool (.element tag)) (he : same e (ofForm (.element tag))) :
    Resolves s (resolveWithin registry room) e t := by
  obtain ⟨l, es, rfl, hes⟩ := eq_generic_of_same he
  obtain ⟨a, rest, ha, hrest, rfl⟩ := List.forall₂_cons_right_iff.1 hes
  obtain rfl := List.forall₂_nil_right_iff.1 hrest
  obtain ⟨k, rfl⟩ := eq_named_of_same ha
  have hdot : Text.isDotted tag.text = false := by
    cases tag with
    | named tag => exact hlegible.1.isDotted
    | _ => decide
  have htag : elementTag tag.text = tag := by
    cases tag with
    | named tag => exact hlegible.2.2
    | _ => decide
  intro r hs hgrows
  have hstored := hs.element tag.text
  rw [htag] at hstored
  have harity : Registry.arity? "html" = some 1 := by decide
  rw [resolveWithin, if_neg hroom, harity]
  show Gives (resolveElement l [.named k tag.text]) r t
  rw [resolveElement, if_neg (by simp [hdot])]
  exact Gives.made ht hgrows hstored

theorem generic (name : String) (hroom : room ≠ 0) {arity : Nat}
    (harity : Registry.arity? name = some arity) (hhtml : name ≠ "html")
    (happly : Registry.applyGeneric name d.parts = some (TypeStore.intern d))
    (ht : s.lookup t = some d) (hs : s.Sound)
    (hparts : ∀ p ∈ d.parts, ∀ e, same e (s.expression p) →
      Resolves s (resolveWithin registry (room - 1)) e p)
    (he : same e (.generic .unknown name (d.parts.map s.expression))) :
    Resolves s (resolveWithin registry room) e t := by
  obtain ⟨l, es, rfl, hes⟩ := eq_generic_of_same he
  rw [List.forall₂_map_right_iff] at hes
  have hresolves : List.Forall₂ (Resolves s (resolveWithin registry (room - 1))) es d.parts :=
    TypeForm.forall₂_mono hes fun e _ p hp he => hparts p hp e he
  intro r hs' hgrows
  rw [resolveWithin, if_neg hroom, harity]
  dsimp only
  rw [if_neg hhtml]
  refine (Gives.resolveAll hresolves hs' hgrows).bind fun r' hs' hgrows' => ?_
  rw [happly]
  have hgrows := hgrows.trans hgrows'
  exact Gives.made ht hgrows (hs'.intern (hgrows.admits (hs.admits t d ht)))

end Generics

section Combined
variable {members : List TypeId}

theorem union (hroom : room ≠ 0) (ht : s.lookup t = some (.union members))
    (hparts : ∀ p ∈ members, ∀ e, same e (s.expression p) →
      Resolves s (resolveWithin registry (room - 1)) e p)
    (he : same e (.union .unknown (sortMembers (members.map s.expression)))) :
    Resolves s (resolveWithin registry room) e t := by
  obtain ⟨l, es, rfl, hes⟩ := eq_union_of_same he
  -- The members are given in the order of their texts, which a union does not depend on.
  rw [sortMembers, Order.sortBy_map, List.forall₂_map_right_iff] at hes
  have hperm := Order.sortBy_perm (fun p q => decide (memberText .unionMember (s.expression p) ≤
    memberText .unionMember (s.expression q))) members
  have hresolves := TypeForm.forall₂_mono hes fun e _ p hp he =>
    hparts p (hperm.mem_iff.1 hp) e he
  intro r hs' hgrows
  rw [resolveWithin, if_neg hroom]
  refine (Gives.resolveAll hresolves hs' hgrows).bind fun r' hs' hgrows' => ?_
  have ht' := (hgrows.trans hgrows').types t _ ht
  exact Gives.made ht (hgrows.trans hgrows') (hs'.union_again ht' hperm)

theorem intersection (hroom : room ≠ 0) (ht : s.lookup t = some (.intersection members))
    (hparts : ∀ p ∈ members, ∀ e, same e (s.expression p) →
      Resolves s (resolveWithin registry (room - 1)) e p)
    (he : same e (.intersection .unknown (members.map s.expression))) :
    Resolves s (resolveWithin registry room) e t := by
  obtain ⟨l, es, rfl, hes⟩ := eq_intersection_of_same he
  rw [List.forall₂_map_right_iff] at hes
  have hresolves := TypeForm.forall₂_mono hes fun e _ p hp he => hparts p hp e he
  intro r hs' hgrows
  rw [resolveWithin, if_neg hroom]
  refine (Gives.resolveAll hresolves hs' hgrows).bind fun r' hs' hgrows' => ?_
  have ht' := (hgrows.trans hgrows').types t _ ht
  exact Gives.made ht (hgrows.trans hgrows') (hs'.intersection_again ht')

end Combined

section Shapes

structure Given {γ δ : Type} (s : TypeStore) (rule : PartRule γ δ) (name : δ → String)
    (type : δ → TypeId) (g : γ) (p : δ) : Prop where
  name : rule.name g = name p
  make : rule.make g (type p) = p
  same : same (rule.type g) (s.expression (type p))

theorem Given.field {f : TypeExpr.Field TypeExpr} {p : RecordProperty TypeId}
    (h : SameField f (ofProperty (p.map s.expression))) :
    Given s fieldRule (·.name) (·.type) f p := by
  obtain ⟨hname, hoptional, he⟩ := h
  refine ⟨hname, ?_, he⟩
  show (⟨f.name, f.optional, p.type⟩ : RecordProperty TypeId) = p
  rw [hname, hoptional]
  rfl

theorem Given.templateParam {q : TemplateParam TypeExpr} {p : TemplateParameter TypeId}
    (h : SameTemplateParam q (ofTemplateParameter (p.map s.expression))) :
    Given s templateParamRule (·.name) (·.type) q p := by
  obtain ⟨hname, -, hkind, hrequired, he⟩ := h
  refine ⟨hname, ?_, he⟩
  show (⟨q.name, q.kind, q.required, p.type⟩ : TemplateParameter TypeId) = p
  rw [hname, hkind, hrequired]
  rfl

theorem Given.functionParam {q : FunctionParam TypeExpr} {p : FunctionParameter TypeId}
    (h : SameFunctionParam q (ofFunctionParameter (p.map s.expression))) :
    Given s functionParamRule (·.name) (·.type) q p := by
  obtain ⟨hname, -, hvariadic, he⟩ := h
  refine ⟨hname, ?_, he⟩
  show (⟨q.name, q.variadic, p.type⟩ : FunctionParameter TypeId) = p
  rw [hname, hvariadic]
  rfl

theorem parts {γ δ : Type} {rule : PartRule γ δ} {name : δ → String} {type : δ → TypeId}
    {given : List γ} {parts : List δ} (h : List.Forall₂ (Given s rule name type) given parts)
    (hnodup : (parts.map name).Nodup)
    (hparts : ∀ p ∈ parts, ∀ e, same e (s.expression (type p)) →
      Resolves s (resolveWithin registry room) e (type p))
    {r : Resolution} (hs : r.store.Sound) (hgrows : s.Grows r.store) :
    Gives (resolveParts rule (resolveWithin registry room) [] given) r (parts, false) := by
  have hnames : given.map rule.name = parts.map name := by
    rw [← List.forall₂_eq_eq_eq, List.forall₂_map_left_iff, List.forall₂_map_right_iff]
    exact h.imp fun g p hgp => hgp.name
  refine Gives.resolveParts ?_ (hnames ▸ hnodup) [] (by simp) hs hgrows
  refine TypeForm.forall₂_mono h fun g _ p hp hgp => ⟨type p, hgp.make, ?_⟩
  exact hparts p hp _ hgp.same

theorem record (hroom : room ≠ 0) {properties : List (RecordProperty TypeId)}
    (ht : s.lookup t = some (.record properties)) (hs : s.Sound)
    (hparts : ∀ p ∈ properties, ∀ e, same e (s.expression p.type) →
      Resolves s (resolveWithin registry (room - 1)) e p.type)
    (he : same e (ofForm ((TypeForm.record properties).mapParts s.expression))) :
    Resolves s (resolveWithin registry room) e t := by
  obtain ⟨l, fields, rfl, hfields⟩ := eq_record_of_same he
  rw [List.forall₂_map_right_iff, List.forall₂_map_right_iff] at hfields
  have hnodup := (hs.admits t _ ht).recorded.2
  intro r hs' hgrows
  rw [resolveWithin, if_neg hroom, resolveFields_eq]
  have hresolve := parts (hfields.imp fun f p => Given.field) hnodup hparts hs' hgrows
  refine hresolve.bind fun r' hs' hgrows' => ?_
  have ht' := (hgrows.trans hgrows').types t _ ht
  exact Gives.made ht (hgrows.trans hgrows') (hs'.record_again ht')

theorem template (hroom : room ≠ 0) {shape : TemplateShape TypeId}
    (ht : s.lookup t = some (.template shape)) (hs : s.Sound)
    (hlegible : s.LegibleForm registry.pool (.template shape))
    (hparts : ∀ p ∈ shape.parameters, ∀ e, same e (s.expression p.type) →
      Resolves s (resolveWithin registry (room - 1)) e p.type)
    (hresult : ∀ e, same e (s.expression shape.result) →
      Resolves s (resolveWithin registry (room - 1)) e shape.result)
    (he : same e (ofForm ((TypeForm.template shape).mapParts s.expression))) :
    Resolves s (resolveWithin registry room) e t := by
  obtain ⟨l, params, result, rfl, hparams, he⟩ := eq_template_of_same he
  rw [List.forall₂_map_right_iff, List.forall₂_map_right_iff] at hparams
  obtain ⟨-, hnodup, hkind⟩ := hlegible
  have hknown := (hs.admits t _ ht).parts
  obtain ⟨hknowns, hresultKnown⟩ := List.forall_mem_append.1 hknown
  have hresultKnown := hresultKnown _ (List.mem_singleton_self _)
  intro r hs' hgrows
  rw [resolveWithin, if_neg hroom, resolveTemplateParams_eq]
  have hresolve := parts (hparams.imp fun q p => Given.templateParam) hnodup hparts hs' hgrows
  refine hresolve.bind fun r₁ hs₁ hgrows₁ => ?_
  have hgrows₁ := hgrows.trans hgrows₁
  refine (hresult result he r₁ hs₁ hgrows₁).bind fun r₂ hs₂ hgrows₂ => ?_
  have hgrows₂ := hgrows₁.trans hgrows₂
  have hget : Gives get r₂ r₂ := ⟨rfl, rfl, hs₂, .refl _⟩
  refine hget.bind fun r₃ hs₃ hgrows₃ => ?_
  have hgrows₃ := hgrows₂.trans hgrows₃
  have hkind : isTemplateResult (r₂.store.kind shape.result) := by
    rw [kind, hgrows₂.data hresultKnown]
    exact hkind
  rw [if_pos hkind]
  refine Gives.made ht hgrows₃ (hs₃.template (fun p hp => hgrows₃.known ?_)
    (hgrows₃.known hresultKnown))
  exact hknowns _ (List.mem_map_of_mem hp)

theorem function (hroom : room ≠ 0) {shape : FunctionShape TypeId}
    (ht : s.lookup t = some (.function shape)) (hs : s.Sound)
    (hlegible : s.LegibleForm registry.pool (.function shape))
    (hparts : ∀ p ∈ shape.parameters, ∀ e, same e (s.expression p.type) →
      Resolves s (resolveWithin registry (room - 1)) e p.type)
    (hresult : ∀ e, same e (s.expression shape.result) →
      Resolves s (resolveWithin registry (room - 1)) e shape.result)
    (he : same e (ofForm ((TypeForm.function shape).mapParts s.expression))) :
    Resolves s (resolveWithin registry room) e t := by
  obtain ⟨l, params, result, rfl, hparams, he⟩ := eq_function_of_same he
  rw [List.forall₂_map_right_iff, List.forall₂_map_right_iff] at hparams
  obtain ⟨-, hnodup⟩ := hlegible
  have hknown := (hs.admits t _ ht).parts
  obtain ⟨hknowns, hresultKnown⟩ := List.forall_mem_append.1 hknown
  have hresultKnown := hresultKnown _ (List.mem_singleton_self _)
  intro r hs' hgrows
  rw [resolveWithin, if_neg hroom, resolveFunctionParams_eq]
  have hresolve := parts (hparams.imp fun q p => Given.functionParam) hnodup hparts hs' hgrows
  refine hresolve.bind fun r₁ hs₁ hgrows₁ => ?_
  have hgrows₁ := hgrows.trans hgrows₁
  refine (hresult result he r₁ hs₁ hgrows₁).bind fun r₂ hs₂ hgrows₂ => ?_
  have hgrows₂ := hgrows₁.trans hgrows₂
  refine Gives.made ht hgrows₂ (hs₂.function (fun p hp => hgrows₂.known ?_)
    (hgrows₂.known hresultKnown))
  exact hknowns _ (List.mem_map_of_mem hp)

end Shapes

theorem of_parts (haliases : registry.aliases = []) (hpool : registry.pool.Built)
    (hnames : registry.pool.Apart) (hs : s.Sound) (hroom : room ≠ 0) (ht : s.lookup t = some d)
    (herror : d ≠ .error) (hlegible : s.LegibleForm registry.pool d)
    (hparts : ∀ p ∈ d.parts, ∀ e, same e (s.expression p) →
      Resolves s (resolveWithin registry (room - 1)) e p)
    (he : same e (ofForm (d.mapParts s.expression))) :
    Resolves s (resolveWithin registry room) e t := by
  cases d with
  | error => exact absurd rfl herror
  | intrinsic kind => exact intrinsic hs hroom ht he
  | element tag => exact element hroom ht hlegible he
  | list item => exact generic "list" hroom rfl (by decide) rfl ht hs hparts he
  | set item => exact generic "set" hroom rfl (by decide) rfl ht hs hparts he
  | iterable item => exact generic "iterable" hroom rfl (by decide) rfl ht hs hparts he
  | map key value => exact generic "map" hroom rfl (by decide) rfl ht hs hparts he
  | legacyObjectMap key value =>
    exact generic "legacy_object_map" hroom rfl (by decide) rfl ht hs hparts he
  | record properties => exact record hroom ht hs (List.forall_mem_map.1 hparts) he
  | template shape =>
    obtain ⟨hparameters, hresult⟩ := List.forall_mem_append.1 hparts
    exact template hroom ht hs hlegible (List.forall_mem_map.1 hparameters)
      (hresult _ (List.mem_singleton_self _)) he
  | function shape =>
    obtain ⟨hparameters, hresult⟩ := List.forall_mem_append.1 hparts
    exact function hroom ht hs hlegible (List.forall_mem_map.1 hparameters)
      (hresult _ (List.mem_singleton_self _)) he
  | union members => exact union hroom ht hparts he
  | intersection members => exact intersection hroom ht hparts he
  | literal value => exact literal hroom ht he
  | message m => exact message haliases hnames hroom hlegible ht he
  | enum m =>
    cases m with
    | descriptor m => exact enum haliases hpool hnames hroom hlegible ht he
    | _ => exact False.elim hlegible

theorem expression (haliases : registry.aliases = []) (hpool : registry.pool.Built)
    (hnames : registry.pool.Apart) (hs : s.Sound) (herror : s.Throughout (· ≠ .error) t)
    (h : s.Legible registry.pool t) (hroom : s.depth t < room) (he : same e (s.expression t)) :
    Resolves s (resolveWithin registry room) e t := by
  -- Each layer of the type takes one level of the room.
  induction herror generalizing room e with
  | @intro t herror _ ih =>
    have ht := h.known.lookup_data
    rw [hs.expression ht] at he
    refine of_parts haliases hpool hnames hs (by omega) ht herror h.form (fun p hp e he => ?_) he
    have hlt := hs.depth_lt h.known hp
    exact ih p hp (h.part hs hp) (by omega) he

end Resolves

end TemplateCheck
