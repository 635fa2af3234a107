import TemplateCheck.Proofs.Resolve.Settling
import TemplateCheck.Proofs.Resolve.Stepping
import TemplateCheck.Proofs.TypeExpr.Parsed

/-! A well-formed expression resolves to a legible type, whatever is reported on the way. -/

namespace TemplateCheck
open TypeExpr TypeStore

theorem TypeExpr.TemplateParam.Spelled.written {p : TemplateParam TypeExpr} (h : p.Spelled)
    (t : TypeId) : (⟨p.name, p.kind, p.required, t⟩ : TemplateParameter TypeId).Written := by
  unfold TypeExpr.TemplateParam.Spelled at h
  unfold TemplateParameter.Written
  cases hkind : p.kind with
  | regular =>
    rw [hkind] at h
    obtain ⟨hname, hplain⟩ := h
    exact hname ▸ hplain
  | htmlAttribute =>
    rw [hkind] at h
    obtain ⟨text, -, hname, htext⟩ := h
    exact Exists.intro text ⟨htext, hname⟩

theorem TypeExpr.FunctionParam.Spelled.plain {p : FunctionParam TypeExpr} (h : p.Spelled) :
    IsPlainName p.name := by
  obtain ⟨hname, hplain⟩ := h
  rwa [hname]

namespace Settles
open Resolving
variable {α : Type} {r : Resolution} {P : TypeStore → α → Prop}

theorem read {f : Resolution → Resolving α} (h : Settles Resolution.store (f r) r P) :
    Settles Resolution.store (get >>= f) r P :=
  ⟨h.sound, h.grows, h.result⟩

theorem making {m : Making α} (h : Settles id m r.store P) :
    Settles Resolution.store (making m) r P :=
  ⟨h.sound, h.grows, h.result⟩

section Faults
variable (hs : r.store.Sound)
include hs

theorem complain (l : Location) (message : Message) (arguments : List String) :
    Settles Resolution.store (complain l message arguments) r fun _ _ => True :=
  ⟨hs, .refl _, trivial⟩

theorem display (t : TypeId) : Settles Resolution.store (display t) r fun _ _ => True :=
  ⟨hs, .refl _, trivial⟩

theorem faulty {pool : Proto.Pool} (l : Location) (message : Message) (arguments : List String) :
    Settles Resolution.store (faulty l message arguments) r (Legible pool) :=
  ⟨hs, .refl _, .error⟩

theorem tooDeep {pool : Proto.Pool} (l : Location) :
    Settles Resolution.store (tooDeep l) r (Legible pool) := faulty hs l _ _

end Faults

section Names
variable {registry : Registry} {s : TypeStore}

def LegibleFound (pool : Proto.Pool) (s : TypeStore) (found : Option TypeId) : Prop :=
  ∀ t, found = some t → s.Legible pool t

theorem builtins (pool : Proto.Pool) : ∀ entry ∈ Registry.builtins, ∀ s : TypeStore, s.Sound →
    Settles id entry.2 s (Legible pool) := by
  have hintrinsic (kind : Intrinsic) (s : TypeStore) (hs : s.Sound) :
      Settles id (pure (.ofIntrinsic kind) : Making TypeId) s (Legible pool) :=
    ret hs (.ofIntrinsic kind)
  have hnumber (s : TypeStore) (hs : s.Sound) : Settles id TypeStore.number s (Legible pool) :=
    union2 hs (.ofIntrinsic .int) (.ofIntrinsic .float)
  simp only [Registry.builtins, List.forall_mem_cons]
  exact ⟨hintrinsic .any, hintrinsic .unknown, hintrinsic .never, hintrinsic .null,
    hintrinsic .undefined, hintrinsic .bool, hintrinsic .int, hintrinsic .float, hnumber,
    hintrinsic .string, hintrinsic .html, hintrinsic .css, hintrinsic .js, hintrinsic .uri,
    hintrinsic .trustedResourceUri, hintrinsic .attributes, hintrinsic .message,
    fun _ h => nomatch h⟩

theorem named (haliases : registry.aliases = []) (hs : s.Sound) (name : String) :
    Settles id (registry.named? name) s (LegibleFound registry.pool) := by
  have hsome (s : TypeStore) (t : TypeId) (h : s.Legible registry.pool t) :
      LegibleFound registry.pool s (some t) := by
    rintro _ ⟨⟩
    exact h
  unfold Registry.named?
  split
  next make hmake =>
    obtain ⟨before, after, hmem, -⟩ := List.lookup_eq_some_iff.1 hmake
    exact (builtins registry.pool (name, make) (by simp [hmem]) s hs).map hsome
  next =>
    have halias : registry.alias? name = none := by rw [Registry.alias?, haliases]; rfl
    rw [halias]
    dsimp only
    split
    next m hm => exact (message hs hm).map hsome
    next =>
      split
      next e he => exact (enum hs he).map hsome
      next => exact ret hs fun t ht => nomatch ht

theorem firstKnown (haliases : registry.aliases = []) (hs : s.Sound) (segments : List String)
    (count : Nat) : Settles id (firstKnown registry segments count) s fun s found =>
      ∀ t properties, found = some (t, properties) → s.Legible registry.pool t := by
  induction count generalizing s with
  | zero => exact ret hs fun _ _ h => nomatch h
  | succ count ih =>
    refine (named haliases hs _).bind fun found s' hs' _ hfound => ?_
    split
    next t =>
      refine ret hs' fun u properties h => ?_
      cases h
      exact hfound _ rfl
    next => exact ih hs'

theorem indexType (hs : r.store.Sound) {t : TypeId} (h : r.store.Legible registry.pool t)
    (property : String) (l : Location) :
    Settles Resolution.store (indexType registry t property l) r (Legible registry.pool) := by
  refine (making (Settles.property hs h property)).bind fun result r' hs' _ hresult => ?_
  split
  · exact ret hs' hresult
  · exact (display hs' t).bind fun _ _ hs'' _ _ => faulty hs'' ..
  · exact (display hs' t).bind fun _ _ hs'' _ _ => faulty hs'' ..

theorem indexAll (hs : r.store.Sound) {t : TypeId} (h : r.store.Legible registry.pool t)
    (l : Location) (properties : List String) :
    Settles Resolution.store (indexAll registry l t properties) r (Legible registry.pool) := by
  induction properties generalizing r t with
  | nil => exact ret hs h
  | cons property rest ih =>
    exact (indexType hs h property l).bind fun u r' hs' _ hu => ih hs' hu

theorem resolveName (haliases : registry.aliases = []) (hs : r.store.Sound) (name : String)
    (l : Location) :
    Settles Resolution.store (resolveName registry name l) r (Legible registry.pool) := by
  refine (making (named haliases hs name)).bind fun found r₁ hs₁ _ hfound => ?_
  split
  next t => exact ret hs₁ (hfound t rfl)
  next =>
    refine (making (firstKnown haliases hs₁ _ _)).bind fun found r₂ hs₂ _ hfound => ?_
    split
    next t properties => exact indexAll hs₂ (hfound t properties rfl) l properties
    next =>
      split
      · exact faulty hs₂ ..
      · exact faulty hs₂ ..

theorem resolveNotGeneric (haliases : registry.aliases = []) (hs : r.store.Sound) (name : String)
    (l : Location) :
    Settles Resolution.store (resolveNotGeneric registry name l) r (Legible registry.pool) := by
  refine (making (named haliases hs name)).bind fun found r₁ hs₁ _ _ => ?_
  split
  · exact faulty hs₁ ..
  · exact faulty hs₁ ..

theorem resolveElement {pool : Proto.Pool} (hs : r.store.Sound) (l : Location)
    {arguments : List TypeExpr} (h : ∀ e ∈ arguments, WellFormed e) :
    Settles Resolution.store (resolveElement l arguments) r (Legible pool) := by
  unfold Resolving.resolveElement
  split
  next tagLocation tag =>
    split
    · exact faulty hs ..
    next hdot =>
      have hdot : Text.isDotted tag = false := by simpa using hdot
      have htag : WellFormed (.named tagLocation tag) := h _ (List.mem_singleton_self _)
      cases htag with
      | unknown => exact making (element hs (.inr rfl) (by decide))
      | named _ hname => exact making (element hs (.inl (hname.1.plain hdot)) hname.2)
  · exact faulty hs ..
  · exact faulty hs ..

theorem resolveLiteral {pool : Proto.Pool} (hs : r.store.Sound) (l : Location)
    (value : Literal) : Settles Resolution.store (resolveLiteral l value) r (Legible pool) := by
  cases value with
  | null => exact ret hs (.ofIntrinsic .null)
  | undefined => exact ret hs (.ofIntrinsic .undefined)
  | string value => exact making (literal hs value)
  | other text => exact faulty hs ..

theorem applyGeneric {pool : Proto.Pool} (hs : s.Sound) {name : String} {types : List TypeId}
    (h : ∀ t ∈ types, s.Legible pool t) {make : Making TypeId}
    (hmake : Registry.applyGeneric name types = some make) : Settles id make s (Legible pool) := by
  unfold Registry.applyGeneric at hmake
  split at hmake
  · cases hmake
    exact list hs (h _ (by simp))
  · cases hmake
    exact set hs (h _ (by simp))
  · cases hmake
    exact iterable hs (h _ (by simp))
  · cases hmake
    exact mapType hs (h _ (by simp)) (h _ (by simp))
  · cases hmake
    exact legacyObjectMap hs (h _ (by simp)) (h _ (by simp))
  · cases hmake

end Names

section Expressions
variable {registry : Registry} {pool : Proto.Pool} {resolve : TypeExpr → Resolving TypeId}
  {r : Resolution} {s : TypeStore} {t : TypeId}

def All (pool : Proto.Pool) (resolve : TypeExpr → Resolving TypeId) : Prop :=
  ∀ e, WellFormed e → ∀ r : Resolution, r.store.Sound →
    Settles Resolution.store (resolve e) r (Legible pool)

theorem resolveList (hall : All pool resolve) {es : List TypeExpr} (h : ∀ e ∈ es, WellFormed e)
    (hs : r.store.Sound) :
    Settles Resolution.store (resolveList resolve es) r fun s types =>
      ∀ t ∈ types, s.Legible pool t := by
  induction es generalizing r with
  | nil => exact ret hs (List.forall_mem_nil _)
  | cons e rest ih =>
    obtain ⟨he, hrest⟩ := List.forall_mem_cons.1 h
    refine (hall e he r hs).bind fun t r₁ hs₁ _ ht => ?_
    refine (ih hrest hs₁).bind fun types r₂ hs₂ hgrows hts => ?_
    exact ret hs₂ (List.forall_mem_cons.2 ⟨ht.grows hs₁ hgrows, hts⟩)

def LegibleParts {γ δ : Type} (pool : Proto.Pool) (rule : PartRule γ δ) (given : List γ)
    (seen : List String) (s : TypeStore) (parts : Parts δ) : Prop :=
  ∃ made : List (γ × TypeId), parts.1 = made.map (fun m => rule.make m.1 m.2) ∧
    (∀ m ∈ made, m.1 ∈ given ∧ s.Legible pool m.2) ∧ Fresh seen (made.map fun m => rule.name m.1)

section Parts
variable {γ δ : Type} {rule : PartRule γ δ} {given : List γ} {seen : List String}

theorem LegibleParts.grows {s' : TypeStore} {parts : Parts δ}
    (h : LegibleParts pool rule given seen s parts) (hs : s.Sound) (hgrows : s.Grows s') :
    LegibleParts pool rule given seen s' parts := by
  obtain ⟨made, hparts, hmade, hfresh⟩ := h
  exact ⟨made, hparts, fun m hm => ⟨(hmade m hm).1, (hmade m hm).2.grows hs hgrows⟩, hfresh⟩

theorem LegibleParts.of_rest {g : γ} {parts : Parts δ}
    (h : LegibleParts pool rule given seen s parts) :
    LegibleParts pool rule (g :: given) seen s parts := by
  obtain ⟨made, hparts, hmade, hfresh⟩ := h
  exact ⟨made, hparts, fun m hm => ⟨List.mem_cons_of_mem g (hmade m hm).1, (hmade m hm).2⟩, hfresh⟩

theorem LegibleParts.parts {parts : Parts δ} (h : LegibleParts pool rule given seen s parts)
    (name : δ → String) (hname : ∀ g t, name (rule.make g t) = rule.name g)
    (type : δ → TypeId) (htype : ∀ g t, type (rule.make g t) = t)
    {Q : δ → Prop} (hmake : ∀ g ∈ given, ∀ t, Q (rule.make g t)) :
    (∀ p ∈ parts.1, Q p ∧ s.Legible pool (type p)) ∧ (parts.1.map name).Nodup := by
  obtain ⟨made, hparts, hmade, hfresh⟩ := h
  rw [hparts, List.map_map]
  constructor
  · refine List.forall_mem_map.2 fun m hm => ?_
    obtain ⟨hgiven, hlegible⟩ := hmade m hm
    rw [htype]
    exact ⟨hmake _ hgiven _, hlegible⟩
  · have hnames : made.map (name ∘ fun m => rule.make m.1 m.2) =
        made.map fun m => rule.name m.1 := List.map_congr_left fun m _ => hname m.1 m.2
    rw [hnames]
    exact hfresh.nodup

theorem resolveParts
    (hrepeated : ∀ g r, r.store.Sound →
      Settles Resolution.store (rule.repeated g) r fun _ _ => True)
    (hall : All pool resolve) (h : ∀ g ∈ given, WellFormed (rule.type g)) (hs : r.store.Sound)
    (seen : List String) :
    Settles Resolution.store (resolveParts rule resolve seen given) r
      (LegibleParts pool rule given seen) := by
  induction given generalizing r seen with
  | nil => exact ret hs ⟨[], rfl, List.forall_mem_nil _, .nil seen⟩
  | cons g rest ih =>
    obtain ⟨hg, hrest⟩ := List.forall_mem_cons.1 h
    refine (hall _ hg r hs).bind fun t r₁ hs₁ _ ht => ?_
    split
    · refine (hrepeated g r₁ hs₁).bind fun _ r₂ hs₂ _ _ => ?_
      exact (ih hrest hs₂ seen).bind fun parts r₃ hs₃ _ hparts => ret hs₃ hparts.of_rest
    next hseen =>
      refine (ih hrest hs₁ (rule.name g :: seen)).bind fun parts r₂ hs₂ hgrows hparts => ret hs₂ ?_
      obtain ⟨made, hmake, hmade, hfresh⟩ := hparts.of_rest (g := g)
      have ht := ht.grows hs₁ hgrows
      exact ⟨(g, t) :: made, by rw [Parts.add, hmake]; rfl,
        List.forall_mem_cons.2 ⟨⟨List.mem_cons_self, ht⟩, hmade⟩, hfresh.cons hseen⟩

theorem ofParts {make : List δ → Making TypeId} {parts : Parts δ} (hs : r.store.Sound)
    (hmake : Settles id (make parts.1) r.store (Legible pool)) :
    Settles Resolution.store (ofParts make parts) r (Legible pool) := by
  unfold Resolving.ofParts
  split
  · exact ret hs .error
  · exact making hmake

end Parts

theorem ofContent {parameters : List (TemplateParam TypeExpr)}
    {parts : Parts (TemplateParameter TypeId)} (hs : r.store.Sound)
    (names : ∀ p ∈ parameters, p.Spelled)
    (hparts : LegibleParts pool templateParamRule parameters [] r.store parts)
    (ht : r.store.Legible pool t) (l : Location) :
    Settles Resolution.store (ofContent l parts t) r (Legible pool) := by
  obtain ⟨hwritten, hnodup⟩ := hparts.parts (·.name) (fun _ _ => rfl) (·.type) (fun _ _ => rfl)
    fun p hp t => (names p hp).written t
  refine read ?_
  split
  next hkind => exact ofParts hs (template hs hwritten hnodup ht hkind)
  next => exact (display hs t).bind fun _ _ hs' _ _ => faulty hs' ..

theorem ofArguments {types : List TypeId} (hs : r.store.Sound)
    (htypes : ∀ t ∈ types, r.store.Legible pool t) (l : Location) (name : String) (arity : Nat) :
    Settles Resolution.store (ofArguments l name arity types) r (Legible pool) := by
  unfold Resolving.ofArguments
  split
  next make hmake => exact making (applyGeneric hs htypes hmake)
  next => exact faulty hs ..

theorem resolveStep (haliases : registry.aliases = []) (ih : All registry.pool resolve) :
    All registry.pool (resolveStep registry resolve) := by
  intro e he r hs
  cases he with
  | unknown l => exact resolveName haliases hs ..
  | named l h => exact resolveName haliases hs ..
  | generic l h hargs =>
    rw [Resolving.resolveStep]
    split
    · exact resolveNotGeneric haliases hs ..
    · split
      · exact resolveElement hs l hargs
      · exact (resolveList ih hargs hs).bind fun types r₁ hs₁ _ htypes =>
          ofArguments hs₁ htypes l _ _
  | union l h hmembers =>
    exact (resolveList ih hmembers hs).bind fun types r₁ hs₁ _ htypes => making (union hs₁ htypes)
  | intersection l h hmembers =>
    exact (resolveList ih hmembers hs).bind fun types r₁ hs₁ _ htypes =>
      making (intersection hs₁ htypes)
  | record l names hfields =>
    refine (resolveParts (fun g r hs => complain hs ..) ih hfields hs []).bind
      fun parts r₁ hs₁ _ hparts => ?_
    obtain ⟨hplain, hnodup⟩ := hparts.parts (·.name) (fun _ _ => rfl) (·.type)
      (fun _ _ => rfl) (Q := fun p => IsPlainName p.name) fun f hf _ => names f hf
    exact ofParts hs₁ (record hs₁ hplain hnodup)
  | template l names hparams hresult =>
    refine (resolveParts (fun g r hs => complain hs ..) ih hparams hs []).bind
      fun parts r₁ hs₁ _ hparts => ?_
    refine (ih _ hresult r₁ hs₁).bind fun t r₂ hs₂ hgrows ht => ?_
    exact ofContent hs₂ names (hparts.grows hs₁ hgrows) ht _
  | function l names hparams hresult =>
    refine (resolveParts (fun g r hs => complain hs ..) ih hparams hs []).bind
      fun parts r₁ hs₁ _ hparts => ?_
    refine (ih _ hresult r₁ hs₁).bind fun t r₂ hs₂ hgrows ht => ?_
    obtain ⟨hplain, hnodup⟩ := (hparts.grows hs₁ hgrows).parts (·.name) (fun _ _ => rfl)
      (·.type) (fun _ _ => rfl) (Q := fun p => IsPlainName p.name)
      fun p hp _ => (names p hp).plain
    exact ofParts hs₂ (function hs₂ hplain hnodup ht)
  | indexed l h hbase =>
    exact (ih _ hbase r hs).bind fun t r₁ hs₁ _ ht => indexType hs₁ ht ..
  | literal l h => exact resolveLiteral hs l _

theorem resolveWithin (haliases : registry.aliases = []) (room : Nat) :
    All registry.pool (resolveWithin registry room) :=
  resolveWithin_induct registry room (motive := fun _ => All registry.pool)
    (fun _ _ _ hs => tooDeep hs _) fun _ _ => resolveStep haliases

end Expressions
end Settles

theorem Resolving.resolve_legible {registry : Registry} (haliases : registry.aliases = [])
    {e : TypeExpr} (h : WellFormed e) {r : Resolution} (hs : r.store.Sound) :
    Settles Resolution.store (resolve registry e) r (Legible registry.pool) :=
  Settles.resolveWithin haliases _ e h r hs

end TemplateCheck
