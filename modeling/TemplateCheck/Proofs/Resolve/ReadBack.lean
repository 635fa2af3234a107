import TemplateCheck.Proofs.Resolve.Again
import TemplateCheck.Proofs.TypeExpr.RoundTrip

/-! The text of a type is read and resolved to that type. -/

namespace TemplateCheck
open TypeExpr TypeStore Resolving

/-- What a store becomes by calls of the constructors and by resolving annotations. -/
inductive TypeStore.Becomes (s : TypeStore) : TypeStore → Prop where
  | refl : Becomes s s
  | call {s' : TypeStore} (h : Becomes s s') (c : Call) (hc : c.Proper)
      (hknown : ∀ t ∈ c.arguments, s'.Known t) : Becomes s (c.make s').2
  | resolve {s' : TypeStore} (h : Becomes s s') {registry : Registry}
      (haliases : registry.aliases = []) {text : String} {file : Option String} {e : TypeExpr}
      (he : parse text file = .ok e) (report : Report) :
      Becomes s (resolve registry e ⟨s', report⟩).2.store

theorem TypeStore.Becomes.keeps {s s' : TypeStore} (h : s.Becomes s') (hs : s.Sound) :
    s'.Sound ∧ s.Grows s' := by
  induction h with
  | refl => exact ⟨hs, .refl s⟩
  | call _ c hc hknown ih =>
    obtain ⟨hs', hgrows⟩ := ih
    have hmade := Call.made hs' hc hknown
    exact ⟨hmade.sound, hgrows.trans hmade.grows⟩
  | @resolve s' _ _ haliases _ _ _ he report ih =>
    obtain ⟨hs', hgrows⟩ := ih
    have hresolve := resolve_legible haliases (wellFormed_of_parse he) (r := ⟨s', report⟩) hs'
    exact ⟨hresolve.sound, hgrows.trans hresolve.grows⟩

/-- The text of a type that an annotation resolved to is read again, and resolves to the same type
in the same store, then and later, with nothing to report. -/
theorem Resolving.resolve_parse_display {place : TypeData → Fin 64} {s₀ s : TypeStore}
    (hs₀ : (TypeStore.empty place).Becomes s₀) {registry : Registry}
    (haliases : registry.aliases = []) (hpool : registry.pool.Built)
    (hnames : registry.pool.Apart) {text : String} {file : Option String} {e : TypeExpr}
    (he : parse text file = .ok e) {report : Report} {t : TypeId}
    (ht : resolve registry e ⟨s₀, report⟩ = (t, ⟨s, report⟩))
    (herror : s.Throughout (· ≠ .error) t) (hlower : s.Throughout TypeForm.LowerAttributes t)
    (hparser : nesting (s.expression t) ≤ nestingLimit) (hresolver : s.depth t < nestingLimit)
    (file' : Option String) :
    (s.expression t).print = s.display t ∧ ∃ m, parse (s.display t) file' = .ok m ∧
      ∀ s', s.Becomes s' → ∀ report', ∃ s'',
        resolve registry m ⟨s', report'⟩ = (t, ⟨s'', report'⟩) := by
  have hsound₀ : s₀.Sound := (hs₀.keeps (Session.sound_empty place)).1
  have hresolve := resolve_legible haliases (wellFormed_of_parse he) (r := ⟨s₀, report⟩) hsound₀
  have hs : s.Sound := by simpa only [ht] using hresolve.sound
  have hlegible : s.Legible registry.pool t := by simpa only [ht] using hresolve.result
  have hdisplay : s.display t = (s.expression t).print := hs.display_eq hlegible.known
  have hwellFormed := hlegible.wellFormed hs hnames herror hlower
  obtain ⟨m, hm, hsame⟩ := parse_print hwellFormed hparser file'
  refine ⟨hdisplay.symm, m, by rw [hdisplay, hm], fun s' hbecomes report' => ?_⟩
  obtain ⟨hs', hgrows⟩ := hbecomes.keeps hs
  have hresolves := Resolves.expression haliases hpool hnames hs herror hlegible hresolver hsame
  exact (hresolves ⟨s', report'⟩ hs' hgrows).run

def sampleRegistry : Registry := .empty ⟨0, [⟨"shop.Item", []⟩], []⟩

def sampleAnnotation : String := "template (@data-id?: number, item: shop.Item) => html"

def sampleExpression : TypeExpr :=
  (parse sampleAnnotation none).toOption.getD (.named .unknown "?")

def sampleResolution : TypeId × Resolution :=
  resolve sampleRegistry sampleExpression ⟨.empty fun _ => Fin.last 63, .empty⟩

def sampleShape : TemplateShape TypeId :=
  ⟨[⟨"dataId", .htmlAttribute, false, ⟨127⟩⟩, ⟨"item", .regular, true, ⟨191⟩⟩], .html⟩

theorem parse_sample : parse sampleAnnotation none = .ok sampleExpression := by
  have hok : (parse sampleAnnotation none).isOk := by decide +kernel
  rw [sampleExpression]
  cases hparse : parse sampleAnnotation none with
  | ok e => rfl
  | error fault =>
    rw [hparse] at hok
    cases hok

theorem apart_sampleRegistry : sampleRegistry.pool.Apart := by
  have hparts : ∀ part ∈ ["shop", "Item"], IsPlainName part := by decide
  have hdotted : IsDottedName (Text.joinWith "." ["shop", "Item"]) :=
    isDottedName_joinWith (List.cons_ne_nil _ _) hparts
  intro name hname
  obtain rfl : "shop.Item" = name := by
    simpa [sampleRegistry, Registry.empty, Proto.Pool.declares] using hname
  exact ⟨⟨hdotted, by decide⟩, by decide⟩

theorem throughout_sampleResolution {P : TypeData → Prop} (htemplate : P (.template sampleShape))
    (hunion : P (.union [.int, .float])) (hmessage : P (.message ⟨0, ⟨"shop.Item", []⟩⟩))
    (hintrinsic : ∀ kind, P (.intrinsic kind)) :
    sampleResolution.2.store.Throughout P sampleResolution.1 := by
  have hdata : sampleResolution.2.store.data sampleResolution.1 = .template sampleShape ∧
      sampleResolution.2.store.data ⟨127⟩ = .union [.int, .float] ∧
      sampleResolution.2.store.data ⟨191⟩ = .message ⟨0, ⟨"shop.Item", []⟩⟩ := by decide +kernel
  obtain ⟨hshape, hnumber, hitem⟩ := hdata
  have hplain (kind : Intrinsic) : sampleResolution.2.store.Throughout P (.ofIntrinsic kind) :=
    .of_data (data_fixed _ rfl) (hintrinsic kind) (List.forall_mem_nil _)
  have hitem : sampleResolution.2.store.Throughout P ⟨191⟩ :=
    .of_data hitem hmessage (List.forall_mem_nil _)
  have hnumber : sampleResolution.2.store.Throughout P ⟨127⟩ :=
    .of_data hnumber hunion (List.forall_mem_cons.2 ⟨hplain .int,
      List.forall_mem_singleton.2 (hplain .float)⟩)
  exact .of_data hshape htemplate (List.forall_mem_cons.2 ⟨hnumber, List.forall_mem_cons.2
    ⟨hitem, List.forall_mem_singleton.2 (hplain .html)⟩⟩)

theorem lowerAttributes_sampleShape : TypeForm.LowerAttributes (.template sampleShape) := by
  intro p hp hkind c hc
  obtain rfl | rfl : p = ⟨"dataId", .htmlAttribute, false, ⟨127⟩⟩ ∨
      p = ⟨"item", .regular, true, ⟨191⟩⟩ := by simpa [sampleShape] using hp
  · obtain rfl : 'd' = c := Option.some.inj hc
    decide
  · cases hkind

theorem Resolving.resolve_parse_display_sample :
    parse sampleAnnotation none = .ok sampleExpression ∧ sampleResolution.2.report = .empty ∧
      sampleResolution.2.store.display sampleResolution.1 =
        "template (@data-id?: float|int, item: shop.Item) => html" ∧
      ∃ m, parse (sampleResolution.2.store.display sampleResolution.1) none = .ok m ∧
        ∃ s, resolve sampleRegistry m ⟨sampleResolution.2.store, .empty⟩ =
          (sampleResolution.1, ⟨s, .empty⟩) := by
  have hbuilt : sampleRegistry.pool.Built := .addMessage (.empty 0) rfl
  have hreport : sampleResolution.2.report = .empty := by decide +kernel
  have hresolve : sampleResolution =
      (sampleResolution.1, ⟨sampleResolution.2.store, .empty⟩) := by
    have heta (x : TypeId × Resolution) : x = (x.1, ⟨x.2.store, x.2.report⟩) := rfl
    have hparts := heta sampleResolution
    rwa [hreport] at hparts
  have herror : sampleResolution.2.store.Throughout (· ≠ .error) sampleResolution.1 :=
    throughout_sampleResolution (by simp) (by simp) (by simp) (by simp)
  have hlower : sampleResolution.2.store.Throughout TypeForm.LowerAttributes
      sampleResolution.1 :=
    throughout_sampleResolution lowerAttributes_sampleShape trivial trivial fun _ => trivial
  have hnesting : nesting (sampleResolution.2.store.expression sampleResolution.1) ≤
      nestingLimit := by decide +kernel
  have hdepth : sampleResolution.2.store.depth sampleResolution.1 < nestingLimit := by
    decide +kernel
  have hdisplay : sampleResolution.2.store.display sampleResolution.1 =
      "template (@data-id?: float|int, item: shop.Item) => html" := by decide +kernel
  obtain ⟨-, m, hm, hagain⟩ := resolve_parse_display .refl rfl hbuilt apart_sampleRegistry
    parse_sample hresolve herror hlower hnesting hdepth none
  exact ⟨parse_sample, hreport, hdisplay, m, hm, hagain _ .refl .empty⟩

end TemplateCheck
