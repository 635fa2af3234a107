import Mathlib.Logic.Relation
import TemplateCheck.Proofs.Types.Identity

/-! Being the same type is an equivalence of trees, so types of different stores can be compared. -/

namespace TemplateCheck
variable {α β γ τ υ φ : Type}

section Layers
variable {R : τ → υ → Prop} {S : υ → φ → Prop} {d : TypeForm τ} {e : TypeForm υ} {f : TypeForm φ}

theorem Matches.flip {R : α → β → Prop} {as : List α} {bs : List β} (h : Matches R as bs) :
    Matches (flip R) bs as :=
  ⟨h.2, h.1⟩

theorem Matches.comp {R : α → β → Prop} {S : β → γ → Prop} {as : List α} {bs : List β}
    {cs : List γ} (h : Matches R as bs) (h' : Matches S bs cs) :
    Matches (Relation.Comp R S) as cs := by
  refine ⟨fun a ha => ?_, fun c hc => ?_⟩
  · obtain ⟨b, hb, hab⟩ := h.1 a ha
    obtain ⟨c, hc, hbc⟩ := h'.1 b hb
    exact ⟨c, hc, b, hab, hbc⟩
  · obtain ⟨b, hb, hbc⟩ := h'.2 c hc
    obtain ⟨a, ha, hab⟩ := h.2 b hb
    exact ⟨a, ha, b, hab, hbc⟩

theorem forall₂_comp {R : α → β → Prop} {S : β → γ → Prop} {as : List α} {bs : List β}
    {cs : List γ} (h : List.Forall₂ R as bs) (h' : List.Forall₂ S bs cs) :
    List.Forall₂ (Relation.Comp R S) as cs := by
  induction h generalizing cs with
  | nil =>
    cases h'
    exact .nil
  | cons hab _ ih =>
    cases h' with
    | cons hbc hrest => exact .cons ⟨_, hab, hbc⟩ (ih hrest)

theorem exists_of_mem_left {R : α → β → Prop} {as : List α} {bs : List β} {a : α}
    (h : List.Forall₂ R as bs) (ha : a ∈ as) : ∃ b ∈ bs, R a b := by
  induction h with
  | nil => cases ha
  | cons hab _ ih =>
    rcases List.mem_cons.1 ha with rfl | ha
    · exact ⟨_, List.mem_cons_self, hab⟩
    · obtain ⟨b, hb, hab⟩ := ih ha
      exact ⟨b, List.mem_cons_of_mem _ hb, hab⟩

theorem Matches.of_forall₂ {R : α → β → Prop} {as : List α} {bs : List β}
    (h : List.Forall₂ R as bs) : Matches R as bs :=
  ⟨fun _ ha => exists_of_mem_left h ha, fun _ hb => exists_of_mem_left h.flip hb⟩

theorem Matches.of_perm {R : α → β → Prop} {as as' : List α} {bs bs' : List β}
    (h : Matches R as bs) (has : as'.Perm as) (hbs : bs.Perm bs') : Matches R as' bs' := by
  refine ⟨fun a ha => ?_, fun b hb => ?_⟩
  · obtain ⟨b, hb, hab⟩ := h.1 a (has.mem_iff.1 ha)
    exact ⟨b, hbs.mem_iff.1 hb, hab⟩
  · obtain ⟨a, ha, hab⟩ := h.2 b (hbs.mem_iff.2 hb)
    exact ⟨a, has.mem_iff.2 ha, hab⟩

theorem nodup_of_forall₂ {R : α → β → Prop} {as : List α} {bs : List β} (h : List.Forall₂ R as bs)
    (hR : ∀ a, ∀ b ∈ bs, ∀ c ∈ bs, R a b → R a c → b = c) (hbs : bs.Nodup) : as.Nodup := by
  induction h with
  | nil => exact .nil
  | @cons a b as bs hab hrest ih =>
    obtain ⟨hb, hbs⟩ := List.nodup_cons.1 hbs
    refine List.nodup_cons.2 ⟨fun ha => hb ?_, ih (fun a b hb c hc => ?_) hbs⟩
    · obtain ⟨c, hc, hac⟩ := exists_of_mem_left hrest ha
      rwa [hR a b List.mem_cons_self c (List.mem_cons_of_mem _ hc) hab hac]
    · exact hR a b (List.mem_cons_of_mem _ hb) c (List.mem_cons_of_mem _ hc)

theorem RecordProperty.Alike.comp {p : RecordProperty τ} {r : RecordProperty φ}
    (h : Relation.Comp (RecordProperty.Alike R) (RecordProperty.Alike S) p r) :
    p.Alike (Relation.Comp R S) r := by
  obtain ⟨q, ⟨hname, hoptional, htype⟩, hname', hoptional', htype'⟩ := h
  exact ⟨hname.trans hname', hoptional.trans hoptional', q.type, htype, htype'⟩

theorem TemplateParameter.Alike.comp {p : TemplateParameter τ} {r : TemplateParameter φ}
    (h : Relation.Comp (TemplateParameter.Alike R) (TemplateParameter.Alike S) p r) :
    p.Alike (Relation.Comp R S) r := by
  obtain ⟨q, ⟨hname, hkind, hrequired, htype⟩, hname', hkind', hrequired', htype'⟩ := h
  exact ⟨hname.trans hname', hkind.trans hkind', hrequired.trans hrequired', q.type, htype, htype'⟩

theorem FunctionParameter.Alike.comp {p : FunctionParameter τ} {r : FunctionParameter φ}
    (h : Relation.Comp (FunctionParameter.Alike R) (FunctionParameter.Alike S) p r) :
    p.Alike (Relation.Comp R S) r := by
  obtain ⟨q, ⟨hname, hvariadic, htype⟩, hname', hvariadic', htype'⟩ := h
  exact ⟨hname.trans hname', hvariadic.trans hvariadic', q.type, htype, htype'⟩

namespace TypeForm

theorem Alike.flip (h : d.Alike R e) : e.Alike (flip R) d := by
  cases h with
  | error => exact .error
  | intrinsic kind => exact .intrinsic kind
  | element tag => exact .element tag
  | list h => exact .list h
  | set h => exact .set h
  | iterable h => exact .iterable h
  | map hkey hvalue => exact .map hkey hvalue
  | legacyObjectMap hkey hvalue => exact .legacyObjectMap hkey hvalue
  | record h =>
    exact .record (h.flip.mono fun p _ q _ hpq => ⟨hpq.1.symm, hpq.2.1.symm, hpq.2.2⟩)
  | template h hresult =>
    exact .template (h.flip.imp fun p q hpq =>
      ⟨hpq.1.symm, hpq.2.1.symm, hpq.2.2.1.symm, hpq.2.2.2⟩) hresult
  | function h hresult =>
    exact .function (h.flip.imp fun p q hpq => ⟨hpq.1.symm, hpq.2.1.symm, hpq.2.2⟩) hresult
  | union h => exact .union h.flip
  | intersection h => exact .intersection h.flip
  | literal value => exact .literal value
  | message m => exact .message m
  | enum e => exact .enum e

theorem Alike.comp (h : d.Alike R e) (h' : e.Alike S f) : d.Alike (Relation.Comp R S) f := by
  cases h with
  | error =>
    cases h'
    exact .error
  | intrinsic kind =>
    cases h'
    exact .intrinsic kind
  | element tag =>
    cases h'
    exact .element tag
  | list h =>
    cases h' with
    | list h' => exact .list ⟨_, h, h'⟩
  | set h =>
    cases h' with
    | set h' => exact .set ⟨_, h, h'⟩
  | iterable h =>
    cases h' with
    | iterable h' => exact .iterable ⟨_, h, h'⟩
  | map hkey hvalue =>
    cases h' with
    | map hkey' hvalue' => exact .map ⟨_, hkey, hkey'⟩ ⟨_, hvalue, hvalue'⟩
  | legacyObjectMap hkey hvalue =>
    cases h' with
    | legacyObjectMap hkey' hvalue' =>
      exact .legacyObjectMap ⟨_, hkey, hkey'⟩ ⟨_, hvalue, hvalue'⟩
  | record h =>
    cases h' with
    | record h' => exact .record ((h.comp h').mono fun _ _ _ _ => RecordProperty.Alike.comp)
  | template h hresult =>
    cases h' with
    | template h' hresult' =>
      exact .template ((forall₂_comp h h').imp fun _ _ => TemplateParameter.Alike.comp)
        ⟨_, hresult, hresult'⟩
  | function h hresult =>
    cases h' with
    | function h' hresult' =>
      exact .function ((forall₂_comp h h').imp fun _ _ => FunctionParameter.Alike.comp)
        ⟨_, hresult, hresult'⟩
  | union h =>
    cases h' with
    | union h' => exact .union (h.comp h')
  | intersection h =>
    cases h' with
    | intersection h' => exact .intersection (h.comp h')
  | literal value =>
    cases h'
    exact .literal value
  | message m =>
    cases h'
    exact .message m
  | enum e =>
    cases h'
    exact .enum e

theorem Alike.kind_eq (h : d.Alike R e) : d.kind = e.kind := by
  cases h <;> rfl

end TypeForm
end Layers

namespace TypeTree

theorem Alike.symm {x y : TypeTree} (h : x.Alike y) : y.Alike x := by
  induction h with
  | node R _ h ih => exact .node (flip R) (fun a b hab => ih b a hab) h.flip

theorem Alike.trans {x y z : TypeTree} (h : x.Alike y) (h' : y.Alike z) : x.Alike z := by
  induction h generalizing z with
  | node R _ h ih =>
    cases h' with
    | node S hS h' =>
      refine .node (Relation.Comp R S) ?_ (h.comp h')
      rintro a c ⟨b, hab, hbc⟩
      exact ih a b hab (hS b c hbc)

end TypeTree

namespace TypeStore
variable {s s' : TypeStore} {t u v : TypeId} {d e : TypeData}

theorem Sound.alike_data (h : s.Sound) (h' : s'.Sound) (ht : s.lookup t = some d)
    (hu : s'.lookup u = some e) (halike : (s.denote t).Alike (s'.denote u)) :
    d.Alike (fun p q => (s.denote p).Alike (s'.denote q)) e := by
  rw [h.denote ht, h'.denote hu] at halike
  cases halike with
  | node R hR hforms => exact hforms.of_mapParts.mono fun p _ q _ hpq => hR _ _ hpq

theorem Sound.eq_of_alike_one (h : s.Sound) (ht : s.Known t) (hu : s.Known u)
    (htv : (s'.denote v).Alike (s.denote t)) (huv : (s'.denote v).Alike (s.denote u)) : t = u :=
  (h.alike_iff ht hu).1 (htv.symm.trans huv)

theorem Sound.alike_fixed (h : s.Sound) (h' : s'.Sound) (ht : s.Known t)
    (halike : (s.denote t).Alike (s'.denote u)) (hfixed : d.fixedId? = some u) : t = u := by
  obtain ⟨e, he⟩ := ht
  have hforms := h.alike_data h' he (s'.lookup_fixed hfixed) halike
  have hed : e = d := by
    cases hforms with
    | error | intrinsic | element | enum => rfl
    | _ => cases hfixed
  subst hed
  exact h.lookup_injective he (s.lookup_fixed hfixed)

theorem Sound.eq_of_alike_isFixed (h : s.Sound) (h' : s'.Sound) (ht : s.Known t) (hu : s'.Known u)
    (halike : (s.denote t).Alike (s'.denote u)) (hfixed : t.isFixed ∨ u.isFixed) : t = u := by
  rcases hfixed with hfixed | hfixed
  · have hd := fixedId?_of_lookup hfixed ht.lookup_data
    exact (h'.alike_fixed h hu halike.symm hd).symm
  · have hd := fixedId?_of_lookup hfixed hu.lookup_data
    exact h.alike_fixed h' ht halike hd

def SameType (s s' : TypeStore) (t u : TypeId) : Prop :=
  s.Known t ∧ (s.denote t).Alike (s'.denote u)

theorem SameType.grows {s₁ : TypeStore} (htu : s.SameType s' t u) (h : s.Sound) (h₁ : s₁.Sound)
    (hgrows : s.Grows s₁) : s₁.SameType s' t u := by
  have hsame : s₁.denote t = s.denote t := hgrows.fold h h₁ htu.1
  exact ⟨hgrows.known htu.1, hsame ▸ htu.2⟩

theorem Stored.alike {made : TypeId × TypeStore} (hstored : s.Stored made d) (h : s.Sound)
    (h' : s'.Sound) (hu : s'.lookup u = some e) (hforms : d.Alike (s.SameType s') e) :
    (made.2.denote made.1).Alike (s'.denote u) := by
  rw [hstored.sound.denote hstored.lookup, h'.denote hu]
  refine .node _ (fun a b hab => hab) (hforms.mono fun p hp q _ hpq => ?_).mapParts
  have hsame : made.2.denote p = s.denote p := hstored.grows.fold h hstored.sound hpq.1
  rw [hsame]
  exact hpq.2

end TypeStore
end TemplateCheck
