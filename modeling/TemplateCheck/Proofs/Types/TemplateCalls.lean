import TemplateCheck.Proofs.Types.Signatures
import TemplateCheck.Proofs.Types.Transitivity

/-! When a template can stand in for another one: exactly if it can be called with every set of
parameters with which the other one can be called. -/

namespace TemplateCheck

/-- What a call passes a parameter by. -/
def TemplateParameter.key {α : Type} (p : TemplateParameter α) : String × ParameterKind :=
  (p.name, p.kind)

namespace Assignable
variable {f g : TemplateShape TypeId} {R S : TypeId → TypeId → Prop}
  {passed : Set (String × ParameterKind)}

structure Callable (shape : TemplateShape TypeId) (passed : Set (String × ParameterKind)) :
    Prop where
  declared : ∀ key ∈ passed, ∃ p ∈ shape.parameters, p.key = key
  complete : ∀ p ∈ shape.parameters, p.required → p.key ∈ passed

/-- The second template can be called wherever the first one can, where `R` compares types. -/
structure StandsIn (R : TypeId → TypeId → Prop) (target source : TemplateShape TypeId) : Prop where
  calls : ∀ passed, Callable target passed → Callable source passed
  takes : ∀ p ∈ target.parameters, ∃ q ∈ source.parameters, q.key = p.key ∧ R q.type p.type
  result : R target.result source.result

theorem sameParameter_iff_key {p q : TemplateParameter TypeId} :
    sameParameter p q ↔ p.key = q.key := by
  rw [sameParameter_iff, TemplateParameter.key, TemplateParameter.key, Prod.mk.injEq]

theorem callable_all (f : TemplateShape TypeId) :
    Callable f {key | ∃ p ∈ f.parameters, p.key = key} where
  declared _ h := h
  complete p hp _ := ⟨p, hp, rfl⟩

theorem callable_required (f : TemplateShape TypeId) :
    Callable f {key | ∃ p ∈ f.parameters, p.required ∧ p.key = key} where
  declared := by
    rintro key ⟨p, hp, -, hkey⟩
    exact ⟨p, hp, hkey⟩
  complete p hp hrequired := ⟨p, hp, hrequired, rfl⟩

theorem TemplateFits.found {p : TemplateParameter TypeId} (h : TemplateFits R f g)
    (hp : p ∈ f.parameters) :
    ∃ q ∈ g.parameters, q.key = p.key ∧ (q.required → p.required) ∧ R q.type p.type := by
  obtain ⟨q, hq, hrequired, htype⟩ := h.given p hp
  have hkey := sameParameter_iff_key.1 (List.find?_some hq)
  exact ⟨q, List.mem_of_find?_eq_some hq, hkey.symm, hrequired, htype⟩

section Names
variable (hg : (g.parameters.map (·.name)).Nodup)
include hg

theorem eq_of_key {p q : TemplateParameter TypeId} (hp : p ∈ g.parameters) (hq : q ∈ g.parameters)
    (h : p.key = q.key) : p = q :=
  List.inj_on_of_nodup_map hg hp hq (Prod.mk.inj h).1

theorem find?_sameParameter {p q : TemplateParameter TypeId} (hq : q ∈ g.parameters)
    (hkey : q.key = p.key) : g.parameters.find? (sameParameter p) = some q := by
  have hsome : (g.parameters.find? (sameParameter p)).isSome :=
    List.find?_isSome.2 ⟨q, hq, sameParameter_iff_key.2 hkey.symm⟩
  obtain ⟨q', hq'⟩ := Option.isSome_iff_exists.1 hsome
  have hkey' := sameParameter_iff_key.1 (List.find?_some hq')
  rw [hq', eq_of_key hg (List.mem_of_find?_eq_some hq') hq (hkey'.symm.trans hkey.symm)]

theorem TemplateFits.callable (h : TemplateFits R f g) (hpassed : Callable f passed) :
    Callable g passed where
  declared key hkey := by
    obtain ⟨p, hp, rfl⟩ := hpassed.declared key hkey
    obtain ⟨q, hq, hqp, -⟩ := h.found hp
    exact ⟨q, hq, hqp⟩
  complete q hq hrequired := by
    obtain ⟨p, hp, hsame⟩ := h.needed q hq hrequired
    obtain ⟨q', hq', hkey, hrequired', -⟩ := h.found hp
    have hqp := sameParameter_iff_key.1 hsame
    obtain rfl := eq_of_key hg hq' hq (hkey.trans hqp.symm)
    exact hqp ▸ hpassed.complete p hp (hrequired' hrequired)

theorem templateFits_iff_standsIn (hf : (f.parameters.map (·.name)).Nodup) :
    TemplateFits R f g ↔ StandsIn R f g := by
  constructor
  · intro h
    refine ⟨fun passed => h.callable hg, fun p hp => ?_, h.result⟩
    obtain ⟨q, hq, hkey, -, htype⟩ := h.found hp
    exact ⟨q, hq, hkey, htype⟩
  · intro h
    refine ⟨fun p hp => ?_, fun q hq hrequired => ?_, h.result⟩
    · obtain ⟨q, hq, hkey, htype⟩ := h.takes p hp
      refine ⟨q, find?_sameParameter hg hq hkey, fun hrequired => ?_, htype⟩
      -- A call that passes the required parameters only has to pass this one.
      obtain ⟨p', hp', hrequired', hkey'⟩ :=
        (h.calls _ (callable_required f)).complete q hq hrequired
      rwa [← eq_of_key hf hp' hp (hkey'.trans hkey)]
    · obtain ⟨p, hp, hkey⟩ := (h.calls _ (callable_all f)).complete q hq hrequired
      exact ⟨p, hp, sameParameter_iff_key.2 hkey.symm⟩

end Names

theorem standsIn_congr
    (hparams : ∀ p ∈ f.parameters, ∀ q ∈ g.parameters, R q.type p.type ↔ S q.type p.type)
    (hresult : R f.result g.result ↔ S f.result g.result) : StandsIn R f g ↔ StandsIn S f g := by
  have htakes (p) (hp : p ∈ f.parameters) :
      (∃ q ∈ g.parameters, q.key = p.key ∧ R q.type p.type) ↔
        ∃ q ∈ g.parameters, q.key = p.key ∧ S q.type p.type :=
    exists_congr fun q => and_congr_right fun hq => and_congr_right fun _ => hparams p hp q hq
  constructor
  · exact fun h => ⟨h.calls, fun p hp => (htakes p hp).1 (h.takes p hp), hresult.1 h.result⟩
  · exact fun h => ⟨h.calls, fun p hp => (htakes p hp).2 (h.takes p hp), hresult.2 h.result⟩

theorem StandsIn.refl (hR : ∀ t, R t t) (f : TemplateShape TypeId) : StandsIn R f f where
  calls _ := id
  takes p hp := ⟨p, hp, rfl, hR p.type⟩
  result := hR f.result

end Assignable

namespace TypeStore
open Assignable
variable {s : TypeStore} {target source : TypeId} {f g : TemplateShape TypeId} {mode : Mode}

theorem Sound.accepts_template (h : s.Sound) (htarget : s.Known target) (hsource : s.Known source)
    (ht : s.data target = .template f) (hs : s.data source = .template g) (hne : target ≠ source) :
    s.accepts mode target source ↔ TemplateFits (fun t u => s.accepts mode t u) f g := by
  have htop := not_isTop_of_not_special (not_special ht rfl)
  have hspecial := not_source_special (not_special hs rfl)
  have hform {t : TypeId} {shape : TemplateShape TypeId} (hd : s.data t = .template shape) :
      s.kind t ≠ .union ∧ s.kind t ≠ .intersection := by
    rw [kind, hd]
    exact ⟨by simp [TypeForm.kind], by simp [TypeForm.kind]⟩
  obtain ⟨htu, hti⟩ := hform ht
  obtain ⟨hsu, hsi⟩ := hform hs
  rw [h.accepts_ordinary htarget hsource hne htop hspecial, distribute_forms htu hti hsu hsi, ht,
    hs]
  exact templateAccepts_iff

end TypeStore

namespace Session
open Assignable
variable {σ : Session} {target source : TypeId} {f g : TemplateShape TypeId} {mode : Mode}

/-- A template whose parameters have different names is assignable to another one exactly if every
call that the other one allows is one that it allows, takes what the other one takes and results in
what the other one results in. -/
theorem isAssignable_iff_standsIn (hσ : σ.Reached) (htarget : target ∈ σ.issued)
    (hsource : source ∈ σ.issued) (ht : σ.store.data target = .template f)
    (hs : σ.store.data source = .template g) (hf : (f.parameters.map (·.name)).Nodup)
    (hg : (g.parameters.map (·.name)).Nodup) (hdepth : σ.store.depth target < 200)
    (hdepth' : σ.store.depth source < 200) :
    σ.store.isAssignable mode target source ↔
      StandsIn (fun t u => σ.store.isAssignable mode t u) f g := by
  rcases eq_or_ne target source with rfl | hne
  · have hfg : f = g := TypeForm.template.inj (ht.symm.trans hs)
    subst hfg
    exact ⟨fun _ => .refl (fun t => σ.store.isAssignable_refl mode t) f,
      fun _ => σ.store.isAssignable_refl mode target⟩
  have hsound := hσ.valid.sound
  have htarget := hσ.valid.known target htarget
  have hsource := hσ.valid.known source hsource
  have hlimit {m n : Nat} (hm : m < 200) (hn : n < 200) : m + n < depthLimit := by
    rw [depthLimit]
    omega
  have hparts {t u : TypeId} (htp : t ∈ (σ.store.data target).parts)
      (hup : u ∈ (σ.store.data source).parts) :
      σ.store.isAssignable mode t u = σ.store.accepts mode t u ∧
        σ.store.isAssignable mode u t = σ.store.accepts mode u t := by
    have htd := (hsound.depth_lt htarget htp).trans hdepth
    have hud := (hsound.depth_lt hsource hup).trans hdepth'
    have htk := hsound.known_part htarget htp
    have huk := hsound.known_part hsource hup
    exact ⟨hsound.isAssignable_eq htk huk (hlimit htd hud),
      hsound.isAssignable_eq huk htk (hlimit hud htd)⟩
  have hparams {p q : TemplateParameter TypeId} (hp : p ∈ f.parameters) (hq : q ∈ g.parameters) :
      σ.store.isAssignable mode q.type p.type = σ.store.accepts mode q.type p.type := by
    refine (hparts ?_ ?_).2
    · rw [ht]
      exact List.mem_append_left _ (List.mem_map_of_mem hp)
    · rw [hs]
      exact List.mem_append_left _ (List.mem_map_of_mem hq)
  have hresult : σ.store.isAssignable mode f.result g.result =
      σ.store.accepts mode f.result g.result := by
    refine (hparts ?_ ?_).1
    · rw [ht]
      exact List.mem_append_right _ (List.mem_singleton_self _)
    · rw [hs]
      exact List.mem_append_right _ (List.mem_singleton_self _)
  rw [hsound.isAssignable_eq htarget hsource (hlimit hdepth hdepth'),
    hsound.accepts_template htarget hsource ht hs hne, templateFits_iff_standsIn hg hf]
  refine standsIn_congr (fun p hp q hq => ?_) ?_
  · rw [hparams hp hq]
  · rw [hresult]

def templateSession : Session :=
  (single.call
    (.template [⟨"a", .regular, true, .int⟩, ⟨"b", .regular, false, .string⟩] .html)).call
      (.template [⟨"a", .regular, true, .int⟩] .html)

theorem isAssignable_iff_standsIn_optional :
    templateSession.Reached ∧ templateSession.store.isAssignable .strict ⟨191⟩ ⟨127⟩ ∧
      StandsIn (fun t u => templateSession.store.isAssignable .strict t u)
        ⟨[⟨"a", .regular, true, .int⟩], .html⟩
        ⟨[⟨"a", .regular, true, .int⟩, ⟨"b", .regular, false, .string⟩], .html⟩ := by
  have hreached : templateSession.Reached :=
    (reached_single.call_fixed (.template _ _) trivial (by decide)).call_fixed (.template _ _)
      trivial (by decide)
  have haccepts : templateSession.store.isAssignable .strict ⟨191⟩ ⟨127⟩ := by decide +kernel
  exact ⟨hreached, haccepts, (isAssignable_iff_standsIn hreached (by decide +kernel)
    (by decide +kernel) (by decide +kernel) (by decide +kernel) (by decide) (by decide)
      (by decide +kernel) (by decide +kernel)).1 haccepts⟩

end Session
end TemplateCheck
