import TemplateCheck.Proofs.Portable.Exports
import TemplateCheck.Proofs.Resolve.Concurring

/-! The ways in which types get into a store. Expressions lead to well shaped types only. Portable
types are checked for repeated properties of records, but templates and functions are taken as they
are described. -/

namespace TemplateCheck
open PortableType TypeStore

namespace PortableType
variable {p q : PortableType}

def isContent : PortableType → Bool
  | error => true
  | element _ => true
  | primitive name =>
    (Intrinsic.ofName? name).any fun kind => Resolving.isTemplateResult (.intrinsic kind)
  | _ => false

def ProperHere : PortableType → Prop
  | template parameters result => (parameters.map (·.name)).Nodup ∧ result.isContent
  | function parameters _ => (parameters.map (·.name)).Nodup
  | _ => True

/-- All described parameters have different names, and all described templates produce content. -/
inductive Proper : PortableType → Prop
  | intro {p : PortableType} (here : p.ProperHere) (children : ∀ q ∈ p.children, q.Proper) :
    p.Proper

theorem Proper.here (h : p.Proper) : p.ProperHere := by
  cases h with
  | intro here _ => exact here

theorem Proper.child (h : p.Proper) (hq : q ∈ p.children) : q.Proper := by
  cases h with
  | intro _ children => exact children q hq

end PortableType

namespace Call
variable {s : TypeStore} {c : Call}

def Shaped (s : TypeStore) : Call → Prop
  | record properties => (properties.map (·.name)).Nodup
  | template parameters result =>
    (parameters.map (·.name)).Nodup ∧ Resolving.isTemplateResult (s.kind result)
  | function parameters _ => (parameters.map (·.name)).Nodup
  | _ => True

theorem wellShaped (hs : s.Sound) (hc : c.Shaped s) (h : ∀ t ∈ c.arguments, s.WellShaped t) :
    (c.make s).2.WellShaped (c.make s).1 := by
  have hdiagonal {t : TypeId} (ht : t ∈ c.arguments) : s.Counterparts s t t := .diagonal hs (h t ht)
  cases c with
  | list item => exact (Parallel.list hs hs (hdiagonal (.head _))).result.shaped
  | set item => exact (Parallel.set hs hs (hdiagonal (.head _))).result.shaped
  | iterable item => exact (Parallel.iterable hs hs (hdiagonal (.head _))).result.shaped
  | map key value =>
    exact (Parallel.mapType hs hs (hdiagonal (.head _))
      (hdiagonal (.tail _ (.head _)))).result.shaped
  | legacyObjectMap key value =>
    exact (Parallel.legacyObjectMap hs hs (hdiagonal (.head _))
      (hdiagonal (.tail _ (.head _)))).result.shaped
  | element tag => exact (Parallel.element hs hs tag).result.shaped
  | literal value => exact (Parallel.literal hs hs value).result.shaped
  | record properties =>
    exact (Parallel.record hs hs (List.forall₂_same.2 fun p hp =>
      ⟨rfl, rfl, hdiagonal (List.mem_map_of_mem hp)⟩) hc).result.shaped
  | template parameters result =>
    exact (Parallel.template hs hs (List.forall₂_same.2 fun p hp =>
      ⟨rfl, rfl, rfl, hdiagonal (List.mem_append_left _ (List.mem_map_of_mem hp))⟩) hc.1
      (hdiagonal (List.mem_append_right _ (.head _))) hc.2).result.shaped
  | function parameters result =>
    exact (Parallel.function hs hs (List.forall₂_same.2 fun p hp =>
      ⟨rfl, rfl, hdiagonal (List.mem_append_left _ (List.mem_map_of_mem hp))⟩) hc
      (hdiagonal (List.mem_append_right _ (.head _)))).result.shaped
  | message m => exact (Parallel.message hs hs m).result.shaped
  | enum e => exact (Parallel.enum hs hs e).result.shaped
  | union types =>
    exact (Parallel.union hs hs rfl (.of_forall₂ (List.forall₂_same.2 fun t ht =>
      hdiagonal ht))).result.shaped
  | intersection types =>
    exact (Parallel.intersection hs hs rfl (.of_forall₂ (List.forall₂_same.2 fun t ht =>
      hdiagonal ht))).result.shaped

end Call

/-- Run in `s`, the import leaves a sound store that has grown, in which what it returns meets
`post`. -/
structure Yields {α : Type} (m : Importing α) (s : TypeStore) (post : TypeStore → α → Prop) :
    Prop where
  sound : (m s).2.Sound
  grows : s.Grows (m s).2
  result : ∀ a, (m s).1 = .ok a → post (m s).2 a

structure TypeStore.Entered (G : Prop) (s : TypeStore) (t : TypeId) : Prop where
  known : s.Known t
  shaped : G → s.WellShaped t

theorem TypeStore.Entered.grows {G : Prop} {s r : TypeStore} {t : TypeId} (h : s.Entered G t)
    (hs : s.Sound) (hgrows : s.Grows r) : r.Entered G t :=
  ⟨hgrows.known h.known, fun hG => (h.shaped hG).grows hs hgrows⟩

namespace Yields
variable {α β : Type} {m : Importing α} {f : α → Importing β} {s : TypeStore}
  {P : TypeStore → α → Prop} {Q : TypeStore → β → Prop} {G : Prop}

theorem ret {a : α} (hs : s.Sound) (h : P s a) : Yields (pure a) s P := by
  refine ⟨hs, .refl s, fun b hb => ?_⟩
  cases hb
  exact h

theorem throw (hs : s.Sound) (e : ImportError) : Yields (throw e : Importing α) s P :=
  ⟨hs, .refl s, fun _ ha => nomatch ha⟩

theorem bind (hm : Yields m s P)
    (hf : ∀ a r, r.Sound → s.Grows r → P r a → Yields (f a) r Q) : Yields (m >>= f) s Q := by
  obtain ⟨hsound, hgrows, hresult⟩ := hm
  have hrun := run_bind m f s
  rcases hm : m s with ⟨_ | a, r⟩
  · rw [hm] at hsound hgrows hrun
    refine ⟨hrun ▸ hsound, hrun ▸ hgrows, fun b hb => ?_⟩
    rw [hrun] at hb
    cases hb
  · rw [hm] at hsound hgrows hresult hrun
    obtain ⟨hsound', hgrows', hresult'⟩ := hf a r hsound hgrows (hresult a rfl)
    exact ⟨hrun ▸ hsound', hrun ▸ hgrows.trans hgrows', hrun ▸ hresult'⟩

theorem call (c : Call) (hs : s.Sound) (hproper : c.Proper) (hshaped : G → c.Shaped s)
    (h : ∀ t ∈ c.arguments, s.Entered G t) :
    Yields (liftM c.make) s fun r t => r.Entered G t := by
  have hmade := Call.made hs hproper fun t ht => (h t ht).known
  refine ⟨hmade.sound, hmade.grows, fun t ht => ?_⟩
  cases ht
  exact ⟨hmade.known, fun hG => Call.wellShaped hs (hshaped hG) fun t ht => (h t ht).shaped hG⟩

theorem fixed {d : TypeData} {t : TypeId} (hs : s.Sound) (hd : d.fixedId? = some t) :
    Yields (pure t) s fun r u => r.Entered G u :=
  ret hs ⟨s.known_fixed hd, fun _ => .fixed hd⟩

/-- In every store the described type is known, and given `G` it is well shaped. -/
def Enters (pool : Proto.Pool) (G : Prop) (p : PortableType) : Prop :=
  ∀ s : TypeStore, s.Sound → Yields (importType pool p) s fun r t => r.Entered G t

section Parts
variable {pool : Proto.Pool} {p q : PortableType}

theorem all (ps : List PortableType) (h : ∀ p ∈ ps, Enters pool G p) (hs : s.Sound) :
    Yields (importAll pool ps) s fun r ts =>
      ts.length = ps.length ∧ ∀ t ∈ ts, r.Entered G t := by
  induction ps generalizing s with
  | nil => exact ret hs ⟨rfl, List.forall_mem_nil _⟩
  | cons p ps ih =>
    obtain ⟨hp, hps⟩ := List.forall_mem_cons.1 h
    rw [importAll]
    refine (hp s hs).bind fun t r hr _ ht => ?_
    refine (ih hps hr).bind fun ts q hq hgrows hts => ret hq ⟨?_, ?_⟩
    · rw [List.length_cons, List.length_cons, hts.1]
    · exact List.forall_mem_cons.2 ⟨ht.grows hr hgrows, hts.2⟩

theorem parts {γ δ : Type} (make : γ → TypeId → δ) (portable : γ → PortableType)
    (name : γ → String) (name' : δ → String) (type : δ → TypeId)
    (hname : ∀ g t, name' (make g t) = name g) (htype : ∀ g t, type (make g t) = t) (given : List γ)
    (h : ∀ p ∈ given.map portable, Enters pool G p) (hs : s.Sound) :
    Yields (do
      let types ← importAll pool (given.map portable)
      return List.zipWith make given types) s fun r parts =>
        parts.map name' = given.map name ∧ ∀ t ∈ parts.map type, r.Entered G t := by
  refine (all _ h hs).bind fun types r hr _ htypes => ret hr ?_
  obtain ⟨hlength, htypes⟩ := htypes
  rw [List.length_map] at hlength
  have hnames : name' ∘ Function.uncurry make = name ∘ Prod.fst := funext fun x => hname x.1 x.2
  have hmade : type ∘ Function.uncurry make = Prod.snd := funext fun x => htype x.1 x.2
  rw [← List.map_uncurry_zip_eq_zipWith, List.map_map, List.map_map, hnames, hmade,
    ← List.map_map, List.map_fst_zip hlength.ge, List.map_snd_zip hlength.le]
  exact ⟨rfl, htypes⟩

theorem content {t : TypeId} (hs : s.Sound)
    (hp : p.isContent) (ht : (importType pool p s).1 = .ok t) :
    Resolving.isTemplateResult ((importType pool p s).2.kind t) := by
  cases p with
  | error =>
    cases ht
    rw [importType, kind]
    exact congrArg (fun d => Resolving.isTemplateResult (TypeForm.kind d))
      (s.data_fixed (d := .error) rfl)
  | element tag =>
    cases ht
    exact congrArg (fun d => Resolving.isTemplateResult (TypeForm.kind d))
      (data_of_lookup (hs.element tag).lookup)
  | primitive name =>
    rw [isContent] at hp
    rw [importType] at ht ⊢
    cases hname : Intrinsic.ofName? name with
    | none =>
      rw [hname] at hp
      cases hp
    | some kind =>
      rw [hname] at hp ht
      cases ht
      exact (congrArg (fun d => Resolving.isTemplateResult (TypeForm.kind d))
        (s.data_fixed (d := .intrinsic kind) rfl)).trans hp
  | _ => cases hp

theorem withContent {P : TypeStore → TypeId → Prop}
    (h : Yields (importType pool p) s P) (hs : s.Sound) :
    Yields (importType pool p) s fun r t =>
      P r t ∧ (p.isContent → Resolving.isTemplateResult (r.kind t)) :=
  ⟨h.sound, h.grows, fun t ht => ⟨h.result t ht, fun hp => content hs hp ht⟩⟩

theorem one (c : TypeId → Call) (hproper : ∀ t, (c t).Proper) (hshaped : ∀ s t, (c t).Shaped s)
    (harguments : ∀ t, (c t).arguments = [t]) (hp : Enters pool G p) (hs : s.Sound) :
    Yields (importType pool p >>= fun t => (liftM (c t).make : Importing TypeId)) s
      fun r t => r.Entered G t := by
  refine (hp s hs).bind fun t r hr _ ht => call (c t) hr (hproper t) (fun _ => hshaped r t) ?_
  rw [harguments]
  exact List.forall_mem_singleton.2 ht

theorem two (c : TypeId → TypeId → Call) (hproper : ∀ t u, (c t u).Proper)
    (hshaped : ∀ s t u, (c t u).Shaped s) (harguments : ∀ t u, (c t u).arguments = [t, u])
    (hp : Enters pool G p) (hq : Enters pool G q) (hs : s.Sound) :
    Yields (importType pool p >>= fun t => importType pool q >>= fun u =>
      (liftM (c t u).make : Importing TypeId)) s fun r t => r.Entered G t := by
  refine (hp s hs).bind fun t r hr _ ht => (hq r hr).bind fun u r' hr' hgrows hu => ?_
  refine call (c t u) hr' (hproper t u) (fun _ => hshaped r' t u) ?_
  rw [harguments]
  exact List.forall_mem_cons.2 ⟨ht.grows hr hgrows, List.forall_mem_singleton.2 hu⟩

theorem many (c : List TypeId → Call) (hproper : ∀ ts, (c ts).Proper)
    (hshaped : ∀ s ts, (c ts).Shaped s) (harguments : ∀ ts, (c ts).arguments = ts)
    {ps : List PortableType} (h : ∀ p ∈ ps, Enters pool G p) (hs : s.Sound) :
    Yields (importAll pool ps >>= fun ts => (liftM (c ts).make : Importing TypeId)) s
      fun r t => r.Entered G t := by
  refine (all ps h hs).bind fun ts r hr _ hts =>
    call (c ts) hr (hproper ts) (fun _ => hshaped r ts) ?_
  rw [harguments]
  exact hts.2

theorem record {properties : List (RecordProperty PortableType)}
    (h : ∀ p ∈ (PortableType.record properties).children, Enters pool G p) (hs : s.Sound) :
    Yields (importType pool (.record properties)) s fun r t => r.Entered G t := by
  rw [importType]
  cases hrepeated : firstRepeated? [] (properties.map (·.name)) with
  | some name => exact throw hs _
  | none =>
    rw [importProperties_eq]
    refine (parts _ _ (·.name) (·.name) (·.type) (fun _ _ => rfl) (fun _ _ => rfl) properties
      h hs).bind fun made r hr _ hmade => ?_
    obtain ⟨hnames, htypes⟩ := hmade
    have hnodup : (made.map (·.name)).Nodup := by
      rw [hnames]
      exact (firstRepeated?_eq_none_iff.1 hrepeated).1
    exact call (.record made) hr hnodup (fun _ => hnodup) htypes

theorem template {parameters : List (TemplateParameter PortableType)} {result : PortableType}
    (h : ∀ p ∈ (PortableType.template parameters result).children, Enters pool G p)
    (hG : G → (PortableType.template parameters result).ProperHere) (hs : s.Sound) :
    Yields (importType pool (.template parameters result)) s fun r t => r.Entered G t := by
  rw [importType, importTemplateParameters_eq]
  have hparameters := fun q hq => h q (List.mem_append_left _ hq)
  refine (parts _ _ (·.name) (·.name) (·.type) (fun _ _ => rfl) (fun _ _ => rfl) parameters
    hparameters hs).bind fun made r hr _ hmade => ?_
  obtain ⟨hnames, htypes⟩ := hmade
  have hresult := (h result (List.mem_append_right _ (.head _)) r hr).withContent hr
  refine hresult.bind fun t q hq hgrows ht => ?_
  obtain ⟨ht, hcontent⟩ := ht
  refine call (.template made t) hq trivial (fun hgiven => ?_) ?_
  · obtain ⟨hnodup, hproduces⟩ := hG hgiven
    exact ⟨hnames ▸ hnodup, hcontent hproduces⟩
  · refine List.forall_mem_append.2 ⟨fun u hu => ?_, List.forall_mem_singleton.2 ht⟩
    exact (htypes u hu).grows hr hgrows

theorem function {parameters : List (FunctionParameter PortableType)} {result : PortableType}
    (h : ∀ p ∈ (PortableType.function parameters result).children, Enters pool G p)
    (hG : G → (PortableType.function parameters result).ProperHere) (hs : s.Sound) :
    Yields (importType pool (.function parameters result)) s fun r t => r.Entered G t := by
  rw [importType, importFunctionParameters_eq]
  have hparameters := fun q hq => h q (List.mem_append_left _ hq)
  refine (parts _ _ (·.name) (·.name) (·.type) (fun _ _ => rfl) (fun _ _ => rfl) parameters
    hparameters hs).bind fun made r hr _ hmade => ?_
  obtain ⟨hnames, htypes⟩ := hmade
  refine (h result (List.mem_append_right _ (.head _)) r hr).bind fun t q hq hgrows ht => ?_
  refine call (.function made t) hq trivial (fun hgiven => ?_) ?_
  · rw [Call.Shaped, hnames]
    exact hG hgiven
  · refine List.forall_mem_append.2 ⟨fun u hu => ?_, List.forall_mem_singleton.2 ht⟩
    exact (htypes u hu).grows hr hgrows

end Parts

theorem enters (pool : Proto.Pool) (p : PortableType) (hG : G → p.Proper) : Enters pool G p := by
  induction p using PortableType.induct with
  | step p ih =>
  have hpart (q : PortableType) (hq : q ∈ p.children) : Enters pool G q :=
    ih q hq fun hgiven => (hG hgiven).child hq
  have hhere (hgiven : G) := (hG hgiven).here
  intro s hs
  cases p with
  | error => exact fixed (d := .error) hs rfl
  | primitive name =>
    rw [importType]
    cases Intrinsic.ofName? name with
    | some kind => exact fixed (d := .intrinsic kind) hs rfl
    | none => exact throw hs _
  | element tag => exact call (.element tag) hs trivial (fun _ => trivial) (List.forall_mem_nil _)
  | list item =>
    exact one .list (fun _ => trivial) (fun _ _ => trivial) (fun _ => rfl) (hpart item (.head _)) hs
  | set item =>
    exact one .set (fun _ => trivial) (fun _ _ => trivial) (fun _ => rfl) (hpart item (.head _)) hs
  | iterable item =>
    exact one .iterable (fun _ => trivial) (fun _ _ => trivial) (fun _ => rfl)
      (hpart item (.head _)) hs
  | map key value =>
    exact two .map (fun _ _ => trivial) (fun _ _ _ => trivial) (fun _ _ => rfl)
      (hpart key (.head _)) (hpart value (.tail _ (.head _))) hs
  | legacyObjectMap key value =>
    exact two .legacyObjectMap (fun _ _ => trivial) (fun _ _ _ => trivial) (fun _ _ => rfl)
      (hpart key (.head _)) (hpart value (.tail _ (.head _))) hs
  | union members =>
    exact many .union (fun _ => trivial) (fun _ _ => trivial) (fun _ => rfl) hpart hs
  | intersection members =>
    exact many .intersection (fun _ => trivial) (fun _ _ => trivial) (fun _ => rfl) hpart hs
  | literal value =>
    exact call (.literal value) hs trivial (fun _ => trivial) (List.forall_mem_nil _)
  | proto name =>
    rw [importType]
    cases pool.message? name with
    | some m => exact call (.message m) hs trivial (fun _ => trivial) (List.forall_mem_nil _)
    | none => exact throw hs _
  | protoEnum name =>
    rw [importType]
    cases pool.enum? name with
    | some e => exact call (.enum e) hs trivial (fun _ => trivial) (List.forall_mem_nil _)
    | none => exact throw hs _
  | anyEnum => exact fixed (d := .enum .any) hs rfl
  | unknownEnum => exact fixed (d := .enum .unknown) hs rfl
  | record properties => exact record hpart hs
  | template parameters result => exact template hpart hhere hs
  | function parameters result => exact function hpart hhere hs

end Yields

namespace TypeStore
variable {s : TypeStore} {t : TypeId} {d : TypeData}

theorem Sound.wellShaped_iff (h : s.Sound) (hd : s.lookup t = some d) :
    s.WellShaped t ↔ s.ShapedForm d ∧ ∀ p ∈ d.parts, s.WellShaped p := by
  have hdata := data_of_lookup hd
  constructor
  · intro hshaped
    exact ⟨hdata ▸ hshaped.form, fun p hp => hshaped.part h (by rwa [hdata])⟩
  · rintro ⟨hform, hparts⟩
    exact ⟨⟨d, hd⟩, .of_data hdata hform fun p hp => (hparts p hp).forms⟩

theorem Sound.isContent_toPortable (h : s.Sound) (ht : s.Known t) :
    (s.toPortable t).isContent = Resolving.isTemplateResult (s.kind t) := by
  obtain ⟨d, hd⟩ := ht
  rw [h.toPortable hd, kind, data_of_lookup hd]
  cases d with
  | intrinsic kind => cases kind <;> rfl
  | enum e => cases e <;> rfl
  | _ => rfl

theorem Sound.properHere_iff (h : s.Sound) (hd : s.lookup t = some d) :
    (PortableType.ofForm (d.mapParts s.shownPortable)).ProperHere ↔ s.ShapedForm d := by
  have hadmits := h.admits t d hd
  cases d with
  | record properties => exact iff_of_true trivial hadmits.recorded.2
  | template shape =>
    have hresult : s.Known shape.result := hadmits.parts _ (by simp [TypeForm.parts])
    rw [s.ofForm_template, ProperHere, h.isContent_toPortable hresult, List.map_map]
    rfl
  | function shape =>
    rw [s.ofForm_function, ProperHere, List.map_map]
    rfl
  | enum e => cases e <;> rfl
  | _ => rfl

theorem Sound.proper_toPortable_iff (h : s.Sound) (ht : s.Known t) :
    (s.toPortable t).Proper ↔ s.WellShaped t := by
  refine h.induct (motive := fun t => (s.toPortable t).Proper ↔ s.WellShaped t)
    (fun t d hd ih => ?_) t ht
  rw [h.wellShaped_iff hd, ← h.properHere_iff hd, h.toPortable hd]
  constructor
  · intro hproper
    exact ⟨hproper.here, fun p hp => (ih p hp).1 (hproper.child (mem_children_ofForm.2
      ⟨p, hp, rfl⟩))⟩
  · rintro ⟨hhere, hparts⟩
    refine .intro hhere fun q hq => ?_
    obtain ⟨p, hp, rfl⟩ := mem_children_ofForm.1 hq
    exact (ih p hp).2 (hparts p hp)

def RecordShaped : TypeData → Prop
  | .record properties => (properties.map (·.name)).Nodup
  | _ => True

theorem Sound.recordShaped (h : s.Sound) (ht : s.Known t) : s.Throughout RecordShaped t := by
  refine h.induct (motive := s.Throughout RecordShaped) (fun t d hd ih => ?_) t ht
  refine .of_data (data_of_lookup hd) ?_ ih
  cases d with
  | record properties => exact (h.admits t _ hd).recorded.2
  | _ => trivial

end TypeStore

namespace Session
open Resolving
variable {σ : Session}

/-- Expressions lead to well shaped types if the aliases are well shaped. What is imported has
records with different properties, and is well shaped if its description is in order. Exports are
in order exactly if the types are well shaped. -/
theorem wellShaped_entries (hσ : σ.Reached) :
    (∀ (registry : Registry) (e : TypeExpr) (report : Report),
      (∀ entry ∈ registry.aliases, σ.store.WellShaped entry.2) →
        ∃ t s ds, resolve registry e ⟨σ.store, report⟩ = (t, ⟨s, report.extend ds⟩) ∧
          s.WellShaped t) ∧
    (∀ (pool : Proto.Pool) (p : PortableType) (t : TypeId) (s : TypeStore),
      importType pool p σ.store = (.ok t, s) →
        s.Throughout RecordShaped t ∧ (p.Proper → s.WellShaped t)) ∧
    ∀ t ∈ σ.issued, (σ.store.toPortable t).Proper ↔ σ.store.WellShaped t := by
  have hs := hσ.valid.sound
  refine ⟨fun registry e report haliases => ?_, fun pool p t s hrun => ?_, fun t ht => ?_⟩
  · have hshared : registry.Shared σ.store σ.store := fun entry hentry =>
      .diagonal hs (haliases entry hentry)
    obtain ⟨t, s, ds, _, _, _, hrun, -, htu, -⟩ :=
      Concurs.resolveWithin registry _ e σ.store σ.store hshared hs hs
    exact ⟨t, s, ds, hrun.run report, htu.shaped⟩
  · obtain ⟨hsound, -, hresult⟩ := Yields.enters pool p (G := p.Proper) id σ.store hs
    rw [hrun] at hsound hresult
    have hentered := hresult t rfl
    exact ⟨hsound.recordShaped hentered.known, hentered.shaped⟩
  · exact hs.proper_toPortable_iff (hσ.valid.known t ht)

def describing (names : List String) : PortableType :=
  .template (names.map fun name => ⟨name, .regular, true, .primitive "string"⟩)
    (.primitive "html")

theorem proper_describing {names : List String} (h : names.Nodup) : (describing names).Proper := by
  have hleaf (name : String) : (primitive name).Proper := .intro trivial fun q hq => nomatch hq
  refine .intro ⟨?_, rfl⟩ fun q hq => ?_
  · simpa [Function.comp_def] using h
  · rcases List.mem_append.1 hq with hq | hq
    · obtain ⟨_, hmem, rfl⟩ := List.mem_map.1 hq
      obtain ⟨name, -, rfl⟩ := List.mem_map.1 hmem
      exact hleaf _
    · obtain rfl := List.mem_singleton.1 hq
      exact hleaf _

theorem importType_describing (names : List String)
    (h : (importType (.empty 0) (describing names) single.store).1 = .ok ⟨127⟩) :
    importType (.empty 0) (describing names) single.store =
      (.ok ⟨127⟩, (importType (.empty 0) (describing names) single.store).2) :=
  Prod.ext h rfl

theorem wellShaped_entries_described :
    single.Reached ∧ (describing ["a", "b"]).Proper ∧ ∃ s,
      importType (.empty 0) (describing ["a", "b"]) single.store = (.ok ⟨127⟩, s) ∧
        s.WellShaped ⟨127⟩ := by
  have hrun := importType_describing ["a", "b"] (by decide +kernel)
  have hproper : (describing ["a", "b"]).Proper := proper_describing (by decide)
  exact ⟨reached_single, hproper, _, hrun,
    ((wellShaped_entries reached_single).2.1 _ _ _ _ hrun).2 hproper⟩

theorem wellShaped_allFixed (s : TypeStore) {t : TypeId} (ht : t ∈ TypeId.allFixed) :
    s.WellShaped t := by
  have hfixed : ∀ t ∈ TypeId.allFixed, t.isFixed := by decide
  exact .fixed (fixedId?_of_lookup (hfixed t ht) (known_allFixed s ht).lookup_data)

theorem import_keeps_repeated_parameters :
    ¬ ∀ (σ : Session) (pool : Proto.Pool) (p : PortableType) (t : TypeId) (s : TypeStore),
      σ.Reached → (∀ u ∈ σ.issued, σ.store.WellShaped u) →
        importType pool p σ.store = (.ok t, s) → s.WellShaped t := by
  intro h
  have hrun := importType_describing ["a", "a"] (by decide +kernel)
  have hshaped := h single _ _ _ _ reached_single (fun u => wellShaped_allFixed _) hrun
  have hform := hshaped.form
  have hdata : (importType (.empty 0) (describing ["a", "a"]) single.store).2.data ⟨127⟩ =
      .template ⟨[⟨"a", .regular, true, .string⟩, ⟨"a", .regular, true, .string⟩], .html⟩ := by
    decide +kernel
  rw [hdata] at hform
  simp [ShapedForm] at hform

end Session
end TemplateCheck
