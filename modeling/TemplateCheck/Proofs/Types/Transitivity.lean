import TemplateCheck.Proofs.Types.Fitting
import TemplateCheck.Proofs.Types.Session

/-! Strict assignability is transitive on types without sentinels, optional properties, variadic
parameters and repeated parameter names. -/

namespace TemplateCheck
open Assignable TypeStore

namespace Assignable
variable {R : TypeId → TypeId → Prop} {d e f : TypeData}

/-- The forms on which assignability is transitive. -/
def Plain : TypeData → Prop
  | .error => False
  | .enum .any => False
  | .enum .unknown => False
  | .record properties => ∀ p ∈ properties, p.optional = false
  | .function shape => ∀ p ∈ shape.parameters, p.variadic = false
  | .template shape => (shape.parameters.map (·.name)).Nodup
  | _ => True

theorem elementAccepts_trans {t u v : ElementTag} (htu : elementAccepts t u)
    (huv : elementAccepts u v) : elementAccepts t v := by
  simp only [elementAccepts, Bool.or_eq_true, beq_iff_eq] at *
  grind

theorem RecordFits.found {ps qs : List (RecordProperty TypeId)} (h : RecordFits R ps qs)
    {p : RecordProperty TypeId} (hp : p ∈ ps) (hplain : p.optional = false) :
    ∃ q, qs.find? (·.name == p.name) = some q ∧ R p.type q.type := by
  have hfits := h p hp
  cases hfind : qs.find? (·.name == p.name) with
  | none =>
    rw [hfind, hplain] at hfits
    cases hfits
  | some q =>
    rw [hfind] at hfits
    exact ⟨q, rfl, hfits.2⟩

theorem RecordFits.trans {ps qs rs : List (RecordProperty TypeId)}
    (hps : ∀ p ∈ ps, p.optional = false) (hqs : ∀ q ∈ qs, q.optional = false)
    (hrs : ∀ r ∈ rs, r.optional = false) (hpq : RecordFits R ps qs) (hqr : RecordFits R qs rs)
    (hR : ∀ p ∈ ps, ∀ q ∈ qs, ∀ r ∈ rs, R p.type q.type → R q.type r.type → R p.type r.type) :
    RecordFits R ps rs := by
  intro p hp
  obtain ⟨q, hq, htype⟩ := hpq.found hp (hps p hp)
  have hname : q.name = p.name := by simpa using List.find?_some hq
  have hq := List.mem_of_find?_eq_some hq
  obtain ⟨r, hr, htype'⟩ := hqr.found hq (hqs q hq)
  rw [hname] at hr
  have hmem := List.mem_of_find?_eq_some hr
  rw [hr]
  change (r.optional → p.optional) ∧ R p.type r.type
  rw [hrs r hmem]
  exact ⟨fun h => (nomatch h), hR p hp q hq r hmem htype htype'⟩

theorem sameParameter_iff {p q : TemplateParameter TypeId} :
    sameParameter p q ↔ p.name = q.name ∧ p.kind = q.kind := by
  simp [sameParameter]

theorem TemplateFits.trans {a b c : TemplateShape TypeId}
    (hc : (c.parameters.map (·.name)).Nodup) (hab : TemplateFits R a b) (hbc : TemplateFits R b c)
    (hparams : ∀ p ∈ a.parameters, ∀ q ∈ b.parameters, ∀ r ∈ c.parameters,
      R r.type q.type → R q.type p.type → R r.type p.type)
    (hresult : R a.result b.result → R b.result c.result → R a.result c.result) :
    TemplateFits R a c where
  given p hp := by
    obtain ⟨q, hq, hrequired, htype⟩ := hab.given p hp
    have hsame := sameParameter_iff.1 (List.find?_some hq)
    have hmem := List.mem_of_find?_eq_some hq
    obtain ⟨r, hr, hrequired', htype'⟩ := hbc.given q hmem
    have heq : sameParameter q = sameParameter p := by
      funext x
      simp [sameParameter, hsame.1, hsame.2]
    rw [heq] at hr
    exact ⟨r, hr, fun h => hrequired (hrequired' h),
      hparams p hp q hmem r (List.mem_of_find?_eq_some hr) htype' htype⟩
  needed r hr hrequired := by
    obtain ⟨q, hq, hsame⟩ := hbc.needed r hr hrequired
    obtain ⟨r', hr', hrequired', -⟩ := hbc.given q hq
    have hsame' := sameParameter_iff.1 (List.find?_some hr')
    obtain rfl : r' = r := List.inj_on_of_nodup_map hc (List.mem_of_find?_eq_some hr') hr
      (hsame'.1.symm.trans (sameParameter_iff.1 hsame).1.symm)
    obtain ⟨p, hp, hsame''⟩ := hab.needed q hq (hrequired' hrequired)
    refine ⟨p, hp, sameParameter_iff.2 ?_⟩
    obtain ⟨hname, hkind⟩ := sameParameter_iff.1 hsame
    obtain ⟨hname', hkind'⟩ := sameParameter_iff.1 hsame''
    exact ⟨hname.trans hname', hkind.trans hkind'⟩
  result := hresult hab.result hbc.result

section Functions
variable {a b c : FunctionShape TypeId}

theorem variadicLast_plain (h : ∀ p ∈ a.parameters, p.variadic = false) :
    variadicLast a = none := by
  rw [variadicLast, Option.filter_eq_none_iff]
  intro p hp
  rw [h p (List.mem_of_getLast? hp)]
  exact Bool.false_ne_true

theorem parameterAt_plain (h : ∀ p ∈ a.parameters, p.variadic = false) (i : Nat) :
    parameterAt a i = a.parameters[i]? := by
  rw [parameterAt, variadicLast_plain h, Option.or_none]
  cases hp : a.parameters[i]? with
  | none => rfl
  | some p => rw [Option.filter_some, h p (List.mem_of_getElem? hp)]; rfl

theorem FunctionFits.length_eq (h : FunctionFits R a b)
    (hb : ∀ p ∈ b.parameters, p.variadic = false) :
    b.parameters.length = a.parameters.length := by
  have henough := h.enough
  have hsurplus := h.surplus
  rw [fixedCount, variadicLast_plain hb] at henough hsurplus
  simp at henough hsurplus
  omega

theorem FunctionFits.trans (hb : ∀ p ∈ b.parameters, p.variadic = false) (hab : FunctionFits R a b)
    (hbc : FunctionFits R b c)
    (hparams : ∀ p ∈ a.parameters, ∀ q ∈ b.parameters, ∀ r ∈ c.parameters,
      R r.type q.type → R q.type p.type → R r.type p.type)
    (hresult : R a.result b.result → R b.result c.result → R a.result c.result) :
    FunctionFits R a c where
  enough := hab.length_eq hb ▸ hbc.enough
  surplus := hab.length_eq hb ▸ hbc.surplus
  given i p hp := by
    obtain ⟨q, hq, htype⟩ := hab.given i p hp
    rw [parameterAt_plain hb] at hq
    obtain ⟨r, hr, htype'⟩ := hbc.given i q hq
    exact ⟨r, hr, hparams p (List.mem_of_getElem? hp) q (List.mem_of_getElem? hq) r
      (parameterAt_mem hr) htype' htype⟩
  result := hresult hab.result hbc.result

end Functions

theorem Fits.trans (hd : Plain d) (he : Plain e) (hf : Plain f) (hde : Fits R d e)
    (hef : Fits R e f) (hR : ∀ x ∈ d.parts, ∀ y ∈ e.parts, ∀ z ∈ f.parts,
      (R x y → R y z → R x z) ∧ (R z y → R y x → R z x)) : Fits R d f := by
  have hitem {x y z} (hxd : x ∈ d.parts) (hye : y ∈ e.parts) (hzf : z ∈ f.parts) (hxy : R x y)
      (hyz : R y z) : R x z := (hR x hxd y hye z hzf).1 hxy hyz
  cases hde with
  | error => exact .error f
  | any => exact .any f
  | unknown => exact .unknown f
  | string | uri => cases hef
  | html => cases hef; exact .html _
  | anyMessage => cases hef; exact .anyMessage _
  | message => cases hef; exact .message _
  | element htu =>
    cases hef with
    | element huv => exact .element (elementAccepts_trans htu huv)
  | list htu =>
    cases hef with
    | list huv => exact .list (hitem (.head _) (.head _) (.head _) htu huv)
  | set htu =>
    cases hef with
    | set huv => exact .set (hitem (.head _) (.head _) (.head _) htu huv)
  | iterable htu =>
    cases hef with
    | iterable huv => exact .iterable (hitem (.head _) (.head _) (.head _) htu huv)
    | iterableList huv => exact .iterableList (hitem (.head _) (.head _) (.head _) htu huv)
    | iterableSet huv => exact .iterableSet (hitem (.head _) (.head _) (.head _) htu huv)
  | iterableList htu =>
    cases hef with
    | list huv => exact .iterableList (hitem (.head _) (.head _) (.head _) htu huv)
  | iterableSet htu =>
    cases hef with
    | set huv => exact .iterableSet (hitem (.head _) (.head _) (.head _) htu huv)
  | map hkl htu =>
    cases hef with
    | map hlm huv =>
      exact .map (hitem (.head _) (.head _) (.head _) hkl hlm)
        (hitem (.tail _ (.head _)) (.tail _ (.head _)) (.tail _ (.head _)) htu huv)
  | legacyObjectMap hkl htu =>
    cases hef with
    | legacyObjectMap hlm huv =>
      exact .legacyObjectMap (hitem (.head _) (.head _) (.head _) hkl hlm)
        (hitem (.tail _ (.head _)) (.tail _ (.head _)) (.tail _ (.head _)) htu huv)
  | record hpq =>
    cases hef with
    | record hqr =>
      refine .record (hpq.trans hd he hf hqr fun p hp q hq r hr => ?_)
      exact hitem (List.mem_map_of_mem hp) (List.mem_map_of_mem hq) (List.mem_map_of_mem hr)
  | template hab =>
    cases hef with
    | template hbc =>
      refine .template (hab.trans hf hbc (fun p hp q hq r hr hrq hqp => ?_) ?_)
      · exact (hR p.type (List.mem_append_left _ (List.mem_map_of_mem hp)) q.type
          (List.mem_append_left _ (List.mem_map_of_mem hq)) r.type
          (List.mem_append_left _ (List.mem_map_of_mem hr))).2 hrq hqp
      · exact hitem (by simp [TypeForm.parts]) (by simp [TypeForm.parts]) (by simp [TypeForm.parts])
  | function hab =>
    cases hef with
    | function hbc =>
      refine .function (hab.trans he hbc (fun p hp q hq r hr hrq hqp => ?_) ?_)
      · exact (hR p.type (List.mem_append_left _ (List.mem_map_of_mem hp)) q.type
          (List.mem_append_left _ (List.mem_map_of_mem hq)) r.type
          (List.mem_append_left _ (List.mem_map_of_mem hr))).2 hrq hqp
      · exact hitem (by simp [TypeForm.parts]) (by simp [TypeForm.parts]) (by simp [TypeForm.parts])
  | @enum i j hij =>
    cases hef with
    | @enum _ k hjk =>
      refine .enum ?_
      cases i <;> cases j <;> cases k <;> try contradiction
      simp only [enumAccepts, beq_iff_eq] at *
      exact hij.trans hjk

end Assignable

namespace TypeStore
variable {s : TypeStore} {a b c t : TypeId} {mode : Mode}

section Specials

theorem accepts_top (ha : a.isTop) : s.accepts mode a b := by
  rw [accepts, within, step, if_pos ha, Bool.or_true]

theorem accepts_refl (s : TypeStore) (mode : Mode) (a : TypeId) : s.accepts mode a a := by
  rw [accepts, within, decide_eq_true rfl, Bool.true_or]

theorem accepts_never_source (s : TypeStore) (mode : Mode) (a : TypeId) :
    s.accepts mode a .never := by
  rw [accepts, within, step, if_pos (Or.inr rfl), ite_self, Bool.or_true]

theorem Sound.accepts_ordinary (h : s.Sound) (ha : s.Known a) (hb : s.Known b) (hne : a ≠ b)
    (htop : a.isTop = false) (hb' : b ∉ [TypeId.error, .unknown, .never]) :
    s.accepts mode a b = distribute (s.accepts mode) s a b := by
  simp only [List.mem_cons, List.not_mem_nil, or_false, not_or] at hb'
  obtain ⟨herror, hunknown, hnever⟩ := hb'
  rw [h.accepts_eq ha hb, decide_eq_false hne, Bool.false_or, step, htop,
    if_neg Bool.false_ne_true, if_neg (by simp [herror, hnever]), if_neg hunknown]

theorem Sound.isTop_of_accepts_any (h : s.Sound) (ha : s.Known a)
    (haccepts : s.accepts mode a .any) : a.isTop := by
  have hdata : s.data .any = .intrinsic .any := s.data_fixed rfl
  have hunion : s.kind .any ≠ .union := by rw [kind, hdata]; decide
  have hintersection : s.kind .any ≠ .intersection := by rw [kind, hdata]; decide
  refine h.induct (motive := fun a => s.accepts mode a .any → a.isTop)
    (fun a d hd ih haccepts => ?_) a ha haccepts
  have ha : s.Known a := ⟨d, hd⟩
  obtain rfl := data_of_lookup hd
  by_contra htop
  rw [Bool.not_eq_true] at htop
  have hne : a ≠ .any := by
    rintro rfl
    cases htop
  have hany : s.Known .any := s.known_fixed (d := .intrinsic .any) rfl
  rw [h.accepts_ordinary ha hany hne htop (by decide)] at haccepts
  rcases kind_cases s a with ⟨members, hda⟩ | ⟨hua, ⟨members, hda⟩ | hia⟩
  · rw [distribute_union_target hunion hda, List.any_eq_true] at haccepts
    obtain ⟨m, hm, haccepts⟩ := haccepts
    have hnot := (h.union_normal ha hda).not_isTop hm
    rw [ih m (by rwa [hda]) haccepts] at hnot
    cases hnot
  · rw [distribute_intersection_target hunion hda, List.all_eq_true] at haccepts
    have hnormal := h.intersection_normal ha hda
    obtain ⟨m, hm⟩ := hnormal.exists_mem
    have hnot := hnormal.not_isTop hm
    rw [ih m (by rwa [hda]) (haccepts m hm)] at hnot
    cases hnot
  · rw [distribute_forms hua hia hunion hintersection, formAccepts_iff, hdata] at haccepts
    generalize hda : s.data a = e at haccepts
    cases haccepts with
    | error | any | unknown =>
      rw [h.eq_fixed ha rfl hda] at htop
      cases htop

theorem Sound.isTop_of_accepts_unknown (h : s.Sound) (ha : s.Known a)
    (haccepts : s.accepts .strict a .unknown) : a.isTop := by
  by_contra htop
  rw [Bool.not_eq_true] at htop
  have hne : a ≠ .unknown := by
    rintro rfl
    cases htop
  have hunknown : s.Known .unknown := s.known_fixed (d := .intrinsic .unknown) rfl
  rw [h.accepts_eq ha hunknown, decide_eq_false hne, step, htop] at haccepts
  cases haccepts

theorem Sound.of_accepted_by_never (h : s.Sound) (hb : s.Known b)
    (haccepts : s.accepts .strict .never b) : b = .never ∨ b = .error := by
  have hdata : s.data .never = .intrinsic .never := s.data_fixed rfl
  have hunion : s.kind .never ≠ .union := by rw [kind, hdata]; decide
  have hintersection : s.kind .never ≠ .intersection := by rw [kind, hdata]; decide
  have hnever : s.Known .never := s.known_fixed (d := .intrinsic .never) rfl
  refine h.induct (motive := fun b => s.accepts .strict .never b → b = .never ∨ b = .error)
    (fun b d hd ih haccepts => ?_) b hb haccepts
  have hb : s.Known b := ⟨d, hd⟩
  obtain rfl := data_of_lookup hd
  by_contra hne
  rw [not_or] at hne
  have hunknown : b ≠ .unknown := by
    rintro rfl
    exact absurd (h.isTop_of_accepts_unknown hnever haccepts) (by decide)
  rw [h.accepts_ordinary hnever hb (Ne.symm hne.1) rfl (by simp [hne, hunknown])] at haccepts
  have hmember {k : Kind} {members : List TypeId} {m : TypeId} (hnormal : s.Normal k members)
      (hm : m ∈ members) : ¬(m = .never ∨ m = .error) := by
    have hplain := hnormal.plain m hm
    rintro (rfl | rfl)
    · exact hplain (by decide)
    · exact hplain (by decide)
  rcases kind_cases s b with ⟨members, hdb⟩ | ⟨hub, ⟨members, hdb⟩ | hib⟩
  · rw [distribute_union_source hdb, List.all_eq_true] at haccepts
    have hnormal := h.union_normal hb hdb
    obtain ⟨m, hm⟩ := hnormal.exists_mem
    exact hmember hnormal hm (ih m (by rwa [hdb]) (haccepts m hm))
  · rw [distribute_intersection_source hunion hintersection hdb, List.any_eq_true] at haccepts
    obtain ⟨m, hm, haccepts⟩ := haccepts
    exact hmember (h.intersection_normal hb hdb) hm (ih m (by rwa [hdb]) haccepts)
  · rw [distribute_forms hunion hintersection hub hib, formAccepts_iff, hdata] at haccepts
    generalize s.data b = e at haccepts
    cases haccepts

end Specials

structure Comparable (s : TypeStore) (t : TypeId) : Prop where
  known : s.Known t
  plain : s.Throughout Plain t

theorem Comparable.form (h : s.Comparable t) : Plain (s.data t) := by
  cases h.plain with
  | intro h => exact h

theorem Comparable.part (h : s.Comparable t) (hs : s.Sound) {p : TypeId}
    (hp : p ∈ (s.data t).parts) : s.Comparable p where
  known := hs.known_part h.known hp
  plain := by
    cases h.plain with
    | intro _ hparts => exact hparts p hp

theorem Comparable.ne_error (h : s.Comparable t) : t ≠ .error := by
  rintro rfl
  have hplain := h.form
  rw [s.data_fixed (d := .error) rfl] at hplain
  exact hplain

section Step
variable (h : s.Sound) (ha : s.Comparable a) (hb : s.Comparable b) (hc : s.Comparable c)
  (ih : ∀ {x y z}, s.Comparable x → s.Comparable y → s.Comparable z →
    s.depth x + s.depth y + s.depth z < s.depth a + s.depth b + s.depth c →
    s.accepts .strict x y → s.accepts .strict y z → s.accepts .strict x z)
include h ha hb hc ih

/-- Two comparisons that are taken apart make one, by the same order of cases: unions from the
source up, then intersections from the target down. -/
theorem Sound.distribute_trans (hab : s.accepts .strict a b) (hbc : s.accepts .strict b c)
    (hab' : distribute (s.accepts .strict) s a b) (hbc' : distribute (s.accepts .strict) s b c)
    (hac : s.accepts .strict a c = distribute (s.accepts .strict) s a c) :
    s.accepts .strict a c := by
  have hlt {t p} (ht : s.Comparable t) (hp : p ∈ (s.data t).parts) := h.depth_lt ht.known hp
  have htarget {p} (hp : p ∈ (s.data a).parts) (hpb : s.accepts .strict p b) :
      s.accepts .strict p c :=
    ih (ha.part h hp) hb hc (by have := hlt ha hp; omega) hpb hbc
  have hmiddle {p} (hp : p ∈ (s.data b).parts) (hap : s.accepts .strict a p)
      (hpc : s.accepts .strict p c) : s.accepts .strict a c :=
    ih ha (hb.part h hp) hc (by have := hlt hb hp; omega) hap hpc
  have hsource {p} (hp : p ∈ (s.data c).parts) (hbp : s.accepts .strict b p) :
      s.accepts .strict a p :=
    ih ha hb (hc.part h hp) (by have := hlt hc hp; omega) hab hbp
  rcases kind_cases s c with ⟨members, hdc⟩ | ⟨huc, hic⟩
  · rw [distribute_union_source hdc, List.all_eq_true] at hbc'
    rw [hac, distribute_union_source hdc, List.all_eq_true]
    exact fun p hp => hsource (by rwa [hdc]) (hbc' p hp)
  rcases kind_cases s b with ⟨members, hdb⟩ | ⟨hub, hib⟩
  · rw [distribute_union_source hdb, List.all_eq_true] at hab'
    rw [distribute_union_target huc hdb, List.any_eq_true] at hbc'
    obtain ⟨p, hp, hpc⟩ := hbc'
    exact hmiddle (by rwa [hdb]) (hab' p hp) hpc
  rcases kind_cases s a with ⟨members, hda⟩ | ⟨hua, ⟨members, hda⟩ | hia⟩
  · rw [distribute_union_target hub hda, List.any_eq_true] at hab'
    obtain ⟨p, hp, hpb⟩ := hab'
    rw [hac, distribute_union_target huc hda, List.any_eq_true]
    exact ⟨p, hp, htarget (by rwa [hda]) hpb⟩
  · rw [distribute_intersection_target hub hda, List.all_eq_true] at hab'
    rw [hac, distribute_intersection_target huc hda, List.all_eq_true]
    exact fun p hp => htarget (by rwa [hda]) (hab' p hp)
  rcases hib with ⟨members, hdb⟩ | hib
  · rw [distribute_intersection_source hua hia hdb, List.any_eq_true] at hab'
    rw [distribute_intersection_target huc hdb, List.all_eq_true] at hbc'
    obtain ⟨p, hp, hap⟩ := hab'
    exact hmiddle (by rwa [hdb]) hap (hbc' p hp)
  rcases hic with ⟨members, hdc⟩ | hic
  · rw [distribute_intersection_source hub hib hdc, List.any_eq_true] at hbc'
    obtain ⟨p, hp, hbp⟩ := hbc'
    rw [hac, distribute_intersection_source hua hia hdc, List.any_eq_true]
    exact ⟨p, hp, hsource (by rwa [hdc]) hbp⟩
  rw [distribute_forms hua hia hub hib, formAccepts_iff] at hab'
  rw [distribute_forms hub hib huc hic, formAccepts_iff] at hbc'
  rw [hac, distribute_forms hua hia huc hic, formAccepts_iff]
  refine hab'.trans ha.form hb.form hc.form hbc' fun x hx y hy z hz => ?_
  have hx' := hlt ha hx
  have hy' := hlt hb hy
  have hz' := hlt hc hz
  exact ⟨ih (ha.part h hx) (hb.part h hy) (hc.part h hz) (by omega),
    ih (hc.part h hz) (hb.part h hy) (ha.part h hx) (by omega)⟩

end Step

/-- The induction is on the sum of the depths: each rule goes to a part of at least one type. -/
theorem Sound.accepts_trans (h : s.Sound) (ha : s.Comparable a) (hb : s.Comparable b)
    (hc : s.Comparable c) (hab : s.accepts .strict a b) (hbc : s.accepts .strict b c) :
    s.accepts .strict a c := by
  induction hn : s.depth a + s.depth b + s.depth c using Nat.strong_induction_on
    generalizing a b c with
  | _ n ih =>
    rcases eq_or_ne a b with rfl | hne
    · exact hbc
    rcases eq_or_ne b c with rfl | hne'
    · exact hab
    rcases eq_or_ne a c with rfl | hne''
    · exact s.accepts_refl .strict a
    cases hta : a.isTop with
    | true => exact accepts_top hta
    | false =>
      rcases eq_or_ne c .never with rfl | hcnever
      · exact s.accepts_never_source .strict a
      -- In the middle `any`, `unknown` and `never` would be accepted for reasons of their own.
      have hbany : b ≠ .any := by
        rintro rfl
        rw [h.isTop_of_accepts_any ha.known hab] at hta
        cases hta
      have hbunknown : b ≠ .unknown := by
        rintro rfl
        rw [h.isTop_of_accepts_unknown ha.known hab] at hta
        cases hta
      have htb : b.isTop = false := by simp [TypeId.isTop, hbany, hbunknown, hb.ne_error]
      have hbnever : b ≠ .never := by
        rintro rfl
        rcases h.of_accepted_by_never hc.known hbc with hc' | hc'
        · exact hcnever hc'
        · exact hc.ne_error hc'
      have hcunknown : c ≠ .unknown := by
        rintro rfl
        rw [h.isTop_of_accepts_unknown hb.known hbc] at htb
        cases htb
      have hbspecial : b ∉ [TypeId.error, .unknown, .never] := by
        simp [hb.ne_error, hbunknown, hbnever]
      have hcspecial : c ∉ [TypeId.error, .unknown, .never] := by
        simp [hc.ne_error, hcunknown, hcnever]
      refine h.distribute_trans ha hb hc (fun hx hy hz hlt hxy hyz => ?_) hab hbc ?_ ?_
        (h.accepts_ordinary ha.known hc.known hne'' hta hcspecial)
      · exact ih _ (hn ▸ hlt) hx hy hz hxy hyz rfl
      · rwa [← h.accepts_ordinary ha.known hb.known hne hta hbspecial]
      · rwa [← h.accepts_ordinary hb.known hc.known hne' htb hcspecial]

end TypeStore

namespace Session
variable {σ : Session} {a b c : TypeId}

/-- Strict assignability of types that nest less than 200 deep is transitive. -/
theorem isAssignable_trans (hσ : σ.Reached) (ha : a ∈ σ.issued) (hb : b ∈ σ.issued)
    (hc : c ∈ σ.issued) (hplain : ∀ t ∈ [a, b, c], σ.store.Throughout Plain t)
    (hdepth : ∀ t ∈ [a, b, c], σ.store.depth t < 200)
    (hab : σ.store.isAssignable .strict a b) (hbc : σ.store.isAssignable .strict b c) :
    σ.store.isAssignable .strict a c := by
  have hvalid := hσ.valid
  have hsound := hvalid.sound
  simp only [List.forall_mem_cons] at hplain hdepth
  obtain ⟨hplainA, hplainB, hplainC, -⟩ := hplain
  obtain ⟨hdepthA, hdepthB, hdepthC, -⟩ := hdepth
  have hlimit {m n : Nat} (hm : m < 200) (hn : n < 200) : m + n < depthLimit := by
    rw [depthLimit]
    omega
  have ha := hvalid.known a ha
  have hb := hvalid.known b hb
  have hc := hvalid.known c hc
  rw [hsound.isAssignable_eq ha hb (hlimit hdepthA hdepthB)] at hab
  rw [hsound.isAssignable_eq hb hc (hlimit hdepthB hdepthC)] at hbc
  rw [hsound.isAssignable_eq ha hc (hlimit hdepthA hdepthC)]
  exact hsound.accepts_trans ⟨ha, hplainA⟩ ⟨hb, hplainB⟩ ⟨hc, hplainC⟩ hab hbc

def listSession : Session :=
  (((single.call (.literal "x")).call (.list ⟨127⟩)).call (.list .string)).call
    (.iterable .string)

theorem isAssignable_trans_list :
    listSession.Reached ∧ listSession.store.isAssignable .strict ⟨319⟩ ⟨255⟩ ∧
      listSession.store.isAssignable .strict ⟨255⟩ ⟨191⟩ ∧
        listSession.store.isAssignable .strict ⟨319⟩ ⟨191⟩ := by
  have hreached : listSession.Reached :=
    (((reached_single.call_fixed (.literal "x") trivial (by decide)).call (.list ⟨127⟩)
      ⟨trivial, by decide +kernel⟩).call_fixed (.list .string) trivial (by decide)).call_fixed
        (.iterable .string) trivial (by decide)
  have hstring : listSession.store.Throughout Plain .string :=
    .of_data (d := .intrinsic .string) (by decide +kernel) trivial fun p hp => nomatch hp
  have hliteral : listSession.store.Throughout Plain ⟨127⟩ :=
    .of_data (d := .literal "x") (by decide +kernel) trivial fun p hp => nomatch hp
  have hiterable : listSession.store.Throughout Plain ⟨319⟩ :=
    .of_data (d := .iterable .string) (by decide +kernel) trivial fun p hp => by
      rwa [List.mem_singleton.1 hp]
  have hstrings : listSession.store.Throughout Plain ⟨255⟩ :=
    .of_data (d := .list .string) (by decide +kernel) trivial fun p hp => by
      rwa [List.mem_singleton.1 hp]
  have hliterals : listSession.store.Throughout Plain ⟨191⟩ :=
    .of_data (d := .list ⟨127⟩) (by decide +kernel) trivial fun p hp => by
      rwa [List.mem_singleton.1 hp]
  have hfirst : listSession.store.isAssignable .strict ⟨319⟩ ⟨255⟩ := by decide +kernel
  have hsecond : listSession.store.isAssignable .strict ⟨255⟩ ⟨191⟩ := by decide +kernel
  refine ⟨hreached, hfirst, hsecond, isAssignable_trans hreached (by decide +kernel)
    (by decide +kernel) (by decide +kernel) ?_ (by decide +kernel) hfirst hsecond⟩
  simpa using ⟨hiterable, hstrings, hliterals⟩

end Session
end TemplateCheck
