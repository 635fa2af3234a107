import TemplateCheck.Proofs.Resolve.Resolved
import TemplateCheck.Proofs.Resolve.Sensible

/-! Resolving an expression once more: it leads to the same type and the same complaints, whatever
has been stored since. As long as nothing is complained about, the type has a meaning all
through. -/

namespace TemplateCheck
open TypeStore

/-- The report with further diagnostics at its end. -/
def Report.extend (r : Report) (ds : List Diagnostic) : Report := ⟨r.diagnostics ++ ds⟩

theorem Report.extend_nil (r : Report) : r.extend [] = r := by
  rw [extend, List.append_nil]

theorem Report.extend_extend (r : Report) (ds ds' : List Diagnostic) :
    (r.extend ds).extend ds' = r.extend (ds ++ ds') := by
  rw [extend, extend, extend, List.append_assoc]

/-- Run in `s`, the computation returns `a`, leaves the sound store `s'`, which has grown, and
reports `ds`. In whatever `s'` grows to, it does so again and stores nothing. -/
structure Replays {α : Type} (m : Resolving α) (s : TypeStore) (a : α) (s' : TypeStore)
    (ds : List Diagnostic) : Prop where
  run : ∀ report, m ⟨s, report⟩ = (a, ⟨s', report.extend ds⟩)
  again : ∀ later : TypeStore, later.Sound → s'.Grows later → ∀ report,
    m ⟨later, report⟩ = (a, ⟨later, report.extend ds⟩)
  sound : s'.Sound
  grows : s.Grows s'
  errors : ∀ d ∈ ds, d.isError

/-- The computation can be run again. What holds of its result may depend on whether `G` holds and
nothing was reported. -/
def Repeats {α : Type} (G : Prop) (m : Resolving α) (s : TypeStore)
    (post : Prop → TypeStore → α → Prop) : Prop :=
  ∃ a s' ds, Replays m s a s' ds ∧ post (G ∧ ds = []) s' a

namespace Repeats
open Resolving

section Steps
variable {α β : Type} {G : Prop} {m : Resolving α} {f : α → Resolving β} {s : TypeStore}
  {P P' : Prop → TypeStore → α → Prop} {Q : Prop → TypeStore → β → Prop}

theorem ret {a : α} (hs : s.Sound) (h : P G s a) : Repeats G (pure a) s P := by
  refine ⟨a, s, [], ⟨fun report => ?_, fun later _ _ report => ?_, hs, .refl s,
    List.forall_mem_nil _⟩, by rwa [eq_self_iff_true, and_true]⟩
  · rw [report.extend_nil]
    rfl
  · rw [report.extend_nil]
    rfl

theorem bind (hm : Repeats G m s P)
    (hf : ∀ a s' G', (G' → G) → s'.Sound → s.Grows s' → P G' s' a → Repeats G' (f a) s' Q) :
    Repeats G (m >>= f) s Q := by
  obtain ⟨a, s₁, ds, hrun, ha⟩ := hm
  obtain ⟨b, s₂, ds', hrun', hb⟩ := hf a s₁ _ And.left hrun.sound hrun.grows ha
  refine ⟨b, s₂, ds ++ ds', ⟨fun report => ?_, fun later hlater hgrows report => ?_, hrun'.sound,
    hrun.grows.trans hrun'.grows, List.forall_mem_append.2 ⟨hrun.errors, hrun'.errors⟩⟩, ?_⟩
  · change f (m ⟨s, report⟩).1 (m ⟨s, report⟩).2 = _
    rw [hrun.run, hrun'.run, Report.extend_extend]
  · change f (m ⟨later, report⟩).1 (m ⟨later, report⟩).2 = _
    rw [hrun.again later hlater (hrun'.grows.trans hgrows), hrun'.again later hlater hgrows,
      Report.extend_extend]
  · rwa [List.append_eq_nil_iff, ← and_assoc]

theorem making {m : Making α} {P : TypeStore → α → Prop} (h : Steady m s P) :
    Repeats G (making m) s fun _ s' a => P s' a := by
  refine ⟨(m s).1, (m s).2, [], ⟨fun report => ?_, fun later hlater hgrows report => ?_, h.sound,
    h.grows, List.forall_mem_nil _⟩, h.result⟩
  · rw [report.extend_nil]
    rfl
  · change ((m later).1, (⟨(m later).2, report⟩ : Resolution)) = _
    rw [h.again later hlater hgrows, report.extend_nil]

theorem read {f : Resolution → Resolving β} (hs : s.Sound)
    (hask : ∀ later : TypeStore, later.Sound → s.Grows later → ∀ report,
      f ⟨later, report⟩ = f ⟨s, .empty⟩)
    (hf : Repeats G (f ⟨s, .empty⟩) s Q) : Repeats G (get >>= f) s Q := by
  obtain ⟨b, s', ds, hrun, hb⟩ := hf
  refine ⟨b, s', ds, ⟨fun report => ?_, fun later hlater hgrows report => ?_, hrun.sound,
    hrun.grows, hrun.errors⟩, hb⟩
  · change f ⟨s, report⟩ ⟨s, report⟩ = _
    rw [hask s hs (.refl s)]
    exact hrun.run report
  · change f ⟨later, report⟩ ⟨later, report⟩ = _
    rw [hask later hlater (hrun.grows.trans hgrows)]
    exact hrun.again later hlater hgrows report

end Steps

section Faults
variable {β : Type} {G : Prop} {s : TypeStore} {pool : Proto.Pool} {t : TypeId}

theorem made {m : Making TypeId} (h : Steady m s (Sensible pool G)) :
    Repeats G (Resolving.making m) s (Sensible pool) := by
  obtain ⟨t, s', ds, hrun, ht⟩ := making (G := G) h
  exact ⟨t, s', ds, hrun, ht.mono And.left⟩

theorem complain (hs : s.Sound) (l : Location) (message : Message) (arguments : List String) :
    Repeats G (complain l message arguments) s fun G' _ _ => ¬G' := by
  refine ⟨(), s, [.of .error l message arguments], ⟨fun _ => rfl, fun _ _ _ _ => rfl, hs, .refl s,
    List.forall_mem_singleton.2 rfl⟩, ?_⟩
  simp

theorem faulty (hs : s.Sound) (l : Location) (message : Message) (arguments : List String) :
    Repeats G (faulty l message arguments) s (Sensible pool) :=
  (complain hs l message arguments).bind fun _ _ _ _ hs' _ hG => ret hs' (.error hG)

theorem tooDeep (hs : s.Sound) (l : Location) : Repeats G (tooDeep l) s (Sensible pool) :=
  faulty hs l _ _

theorem display {f : String → Resolving β} {Q : Prop → TypeStore → β → Prop} (hs : s.Sound)
    (ht : s.Known t) (hf : ∀ text, Repeats G (f text) s Q) :
    Repeats G (display t >>= f) s Q := by
  refine read (f := fun r => f (r.store.display t)) hs (fun later hlater hgrows report => ?_) (hf _)
  rw [TypeStore.display, TypeStore.display, hgrows.fold hs hlater ht]

end Faults
end Repeats

/-- The types that the registry names are sensible, and so are those that its pool leads to. -/
structure Registry.Serves (registry : Registry) (G : Prop) (s : TypeStore) : Prop where
  pool : G → registry.pool.Closed
  aliases : ∀ entry ∈ registry.aliases, s.Sensible registry.pool G entry.2

theorem Registry.Serves.later {registry : Registry} {G G' : Prop} {s s' : TypeStore}
    (h : registry.Serves G s) (hG : G' → G) (hs : s.Sound) (hgrows : s.Grows s') :
    registry.Serves G' s' :=
  ⟨fun hG' => h.pool (hG hG'), fun entry hentry => ((h.aliases entry hentry).mono hG).grows hs
    hgrows⟩

section Names
variable {registry : Registry} {G : Prop} {s : TypeStore} {t : TypeId}

namespace Steady

theorem builtins (pool : Proto.Pool) : ∀ entry ∈ Registry.builtins, ∀ s : TypeStore, s.Sound →
    Steady entry.2 s (Sensible pool G) := by
  have hintrinsic (kind : Intrinsic) (s : TypeStore) (hs : s.Sound) :
      Steady (pure (.ofIntrinsic kind)) s (Sensible pool G) :=
    ret hs (.ofIntrinsic kind)
  have hnumber (s : TypeStore) (hs : s.Sound) : Steady TypeStore.number s (Sensible pool G) :=
    union2 hs (.ofIntrinsic .int) (.ofIntrinsic .float)
  simp only [Registry.builtins, List.forall_mem_cons]
  exact ⟨hintrinsic .any, hintrinsic .unknown, hintrinsic .never, hintrinsic .null,
    hintrinsic .undefined, hintrinsic .bool, hintrinsic .int, hintrinsic .float, hnumber,
    hintrinsic .string, hintrinsic .html, hintrinsic .css, hintrinsic .js, hintrinsic .uri,
    hintrinsic .trustedResourceUri, hintrinsic .attributes, hintrinsic .message,
    List.forall_mem_nil _⟩

theorem named (h : registry.Serves G s) (hs : s.Sound) (name : String) :
    Steady (registry.named? name) s fun s' found =>
      ∀ t, found = some t → s'.Sensible registry.pool G t := by
  have hsome (s : TypeStore) (t : TypeId) (ht : s.Sensible registry.pool G t) :
      ∀ u, some t = some u → s.Sensible registry.pool G u := by
    rintro _ ⟨⟩
    exact ht
  unfold Registry.named?
  split
  next make hmake =>
    obtain ⟨before, after, hmem, -⟩ := List.lookup_eq_some_iff.1 hmake
    exact (builtins registry.pool (name, make) (by simp [hmem]) s hs).map hsome
  next =>
    split
    next t halias =>
      obtain ⟨before, after, hmem, -⟩ := List.lookup_eq_some_iff.1 halias
      exact ret hs (hsome s t (h.aliases (name, t) (by simp [hmem])))
    next =>
      split
      next m hm => exact (message hs hm).map hsome
      next =>
        split
        next e _ => exact (enum hs e).map hsome
        next => exact ret hs fun t ht => nomatch ht

theorem firstKnown (h : registry.Serves G s) (hs : s.Sound) (segments : List String)
    (count : Nat) : Steady (Resolving.firstKnown registry segments count) s fun s' found =>
      ∀ t properties, found = some (t, properties) → s'.Sensible registry.pool G t := by
  induction count generalizing s with
  | zero => exact ret hs fun _ _ h => nomatch h
  | succ count ih =>
    refine (named h hs _).bind fun found s' hs' hgrows hfound => ?_
    cases found with
    | some t =>
      refine ret hs' fun u properties h => ?_
      cases h
      exact hfound _ rfl
    | none => exact ih (h.later id hs hgrows) hs'

theorem applyGeneric {pool : Proto.Pool} (hs : s.Sound) {name : String} {types : List TypeId}
    (h : ∀ t ∈ types, s.Sensible pool G t) {make : Making TypeId}
    (hmake : Registry.applyGeneric name types = some make) : Steady make s (Sensible pool G) := by
  unfold Registry.applyGeneric at hmake
  split at hmake
  · cases hmake
    exact list hs (h _ (by simp))
  · cases hmake
    exact set hs (h _ (by simp))
  · cases hmake
    exact iterable hs (h _ (by simp))
  · cases hmake
    exact mapType hs (h _ (by simp)) (h _ (by simp))
  · cases hmake
    exact legacyObjectMap hs (h _ (by simp)) (h _ (by simp))
  · cases hmake

end Steady

namespace Repeats
open Resolving

theorem indexType (h : registry.Serves G s) (hs : s.Sound)
    (ht : s.Sensible registry.pool G t) (property : String) (l : Location) :
    Repeats G (indexType registry t property l) s (Sensible registry.pool) := by
  refine (making (Steady.property hs h.pool ht property)).bind
    fun result s₁ G₁ hG₁ hs₁ hgrows hresult => ?_
  have ht₁ := hgrows.known ht.known
  cases result with
  | found u => exact ret hs₁ (hresult.mono hG₁)
  | missing => exact display hs₁ ht₁ fun text => faulty hs₁ ..
  | notIndexable => exact display hs₁ ht₁ fun text => faulty hs₁ ..

theorem indexAll (h : registry.Serves G s) (hs : s.Sound) (ht : s.Sensible registry.pool G t)
    (l : Location) (properties : List String) :
    Repeats G (indexAll registry l t properties) s (Sensible registry.pool) := by
  induction properties generalizing G s t with
  | nil => exact ret hs ht
  | cons property rest ih =>
    exact (indexType h hs ht property l).bind fun u s' G' hG' hs' hgrows hu =>
      ih (h.later hG' hs hgrows) hs' hu

theorem resolveName (h : registry.Serves G s) (hs : s.Sound) (name : String) (l : Location) :
    Repeats G (resolveName registry name l) s (Sensible registry.pool) := by
  refine (making (Steady.named h hs name)).bind fun found s₁ G₁ hG₁ hs₁ hgrows₁ hfound => ?_
  cases found with
  | some t => exact ret hs₁ ((hfound t rfl).mono hG₁)
  | none =>
    have h₁ := h.later hG₁ hs hgrows₁
    refine (making (Steady.firstKnown h₁ hs₁ _ _)).bind
      fun found s₂ G₂ hG₂ hs₂ hgrows₂ hfound => ?_
    cases found with
    | some found =>
      exact indexAll (h₁.later hG₂ hs₁ hgrows₂) hs₂ ((hfound _ _ rfl).mono hG₂) l _
    | none =>
      dsimp only
      split
      · exact faulty hs₂ ..
      · exact faulty hs₂ ..

theorem resolveNotGeneric (h : registry.Serves G s) (hs : s.Sound) (name : String)
    (l : Location) :
    Repeats G (resolveNotGeneric registry name l) s (Sensible registry.pool) := by
  refine (making (Steady.named h hs name)).bind fun found s₁ G₁ _ hs₁ _ _ => ?_
  split
  · exact faulty hs₁ ..
  · exact faulty hs₁ ..

theorem resolveElement {pool : Proto.Pool} (hs : s.Sound) (l : Location)
    (arguments : List TypeExpr) :
    Repeats G (resolveElement l arguments) s (Sensible pool) := by
  unfold Resolving.resolveElement
  split
  next tagLocation tag =>
    split
    · exact faulty hs ..
    · exact made (Steady.element hs tag)
  · exact faulty hs ..
  · exact faulty hs ..

theorem resolveLiteral {pool : Proto.Pool} (hs : s.Sound) (l : Location)
    (value : TypeExpr.Literal) :
    Repeats G (resolveLiteral l value) s (Sensible pool) := by
  cases value with
  | null => exact ret hs (.ofIntrinsic .null)
  | undefined => exact ret hs (.ofIntrinsic .undefined)
  | string value => exact made (Steady.literal hs value)
  | other text => exact faulty hs ..

end Repeats
end Names

namespace Repeats
open Resolving

section Expressions
variable {registry : Registry} {resolve : TypeExpr → Resolving TypeId} {G : Prop} {s : TypeStore}

def All (registry : Registry) (resolve : TypeExpr → Resolving TypeId) : Prop :=
  ∀ (e : TypeExpr) (G : Prop) (s : TypeStore), registry.Serves G s → s.Sound →
    Repeats G (resolve e) s (Sensible registry.pool)

theorem resolveList (hall : All registry resolve) (es : List TypeExpr)
    (h : registry.Serves G s) (hs : s.Sound) :
    Repeats G (resolveList resolve es) s fun G' s' types =>
      ∀ t ∈ types, s'.Sensible registry.pool G' t := by
  induction es generalizing G s with
  | nil => exact ret hs (List.forall_mem_nil _)
  | cons e rest ih =>
    refine (hall e G s h hs).bind fun t s₁ G₁ hG₁ hs₁ hgrows₁ ht => ?_
    refine (ih (h.later hG₁ hs hgrows₁) hs₁).bind fun types s₂ G₂ hG₂ hs₂ hgrows₂ hts => ?_
    exact ret hs₂ (List.forall_mem_cons.2 ⟨(ht.mono hG₂).grows hs₁ hgrows₂, hts⟩)

structure SensibleParts {γ δ : Type} (pool : Proto.Pool) (rule : PartRule γ δ)
    (seen : List String) (G : Prop) (s : TypeStore) (parts : Parts δ) : Prop where
  made : ∃ made : List (γ × TypeId), parts.1 = made.map (fun m => rule.make m.1 m.2) ∧
    (∀ m ∈ made, s.Sensible pool G m.2) ∧ Fresh seen (made.map fun m => rule.name m.1)
  failed : parts.2 → ¬G

section Parts
variable {γ δ : Type} {pool : Proto.Pool} {rule : PartRule γ δ} {seen : List String}

theorem resolveParts
    (hrepeated : ∀ g G (s : TypeStore), s.Sound → Repeats G (rule.repeated g) s fun G' _ _ => ¬G')
    (hall : All registry resolve) (given : List γ) (h : registry.Serves G s) (hs : s.Sound)
    (seen : List String) :
    Repeats G (resolveParts rule resolve seen given) s (SensibleParts registry.pool rule seen) := by
  induction given generalizing G s seen with
  | nil => exact ret hs ⟨⟨[], rfl, List.forall_mem_nil _, .nil seen⟩, fun h => nomatch h⟩
  | cons g rest ih =>
    refine (hall (rule.type g) G s h hs).bind fun t s₁ G₁ hG₁ hs₁ hgrows₁ ht => ?_
    have h₁ := h.later hG₁ hs hgrows₁
    split
    · refine (hrepeated g G₁ s₁ hs₁).bind fun _ s₂ G₂ hG₂ hs₂ hgrows₂ hcomplained => ?_
      refine (ih (h₁.later hG₂ hs₁ hgrows₂) hs₂ seen).bind
        fun parts s₃ G₃ hG₃ hs₃ _ hparts => ret hs₃ ?_
      exact ⟨hparts.made, fun _ hG => hcomplained (hG₃ hG)⟩
    next hseen =>
      refine (ih h₁ hs₁ (rule.name g :: seen)).bind
        fun parts s₂ G₂ hG₂ hs₂ hgrows₂ hparts => ret hs₂ ?_
      obtain ⟨made, hmake, hmade, hfresh⟩ := hparts.made
      have ht := (ht.mono hG₂).grows hs₁ hgrows₂
      exact ⟨⟨(g, t) :: made, by rw [Parts.add, hmake]; rfl, List.forall_mem_cons.2 ⟨ht, hmade⟩,
        hfresh.cons hseen⟩, hparts.failed⟩

theorem SensibleParts.parts {parts : Parts δ} (h : SensibleParts pool rule seen G s parts)
    (name : δ → String) (hname : ∀ g t, name (rule.make g t) = rule.name g)
    (type : δ → TypeId) (htype : ∀ g t, type (rule.make g t) = t) :
    (∀ p ∈ parts.1, s.Sensible pool G (type p)) ∧ (parts.1.map name).Nodup := by
  obtain ⟨made, hparts, hmade, hfresh⟩ := h.made
  rw [hparts, List.map_map]
  constructor
  · refine List.forall_mem_map.2 fun m hm => ?_
    rw [htype]
    exact hmade m hm
  · have hnames : made.map (name ∘ fun m => rule.make m.1 m.2) =
        made.map fun m => rule.name m.1 := List.map_congr_left fun m _ => hname m.1 m.2
    rw [hnames]
    exact hfresh.nodup

theorem SensibleParts.later {G' : Prop} {s' : TypeStore} {parts : Parts δ}
    (h : SensibleParts pool rule seen G s parts) (hG : G' → G) (hs : s.Sound) (hgrows : s.Grows s') :
    SensibleParts pool rule seen G' s' parts where
  made := by
    obtain ⟨made, hparts, hmade, hfresh⟩ := h.made
    exact ⟨made, hparts, fun m hm => ((hmade m hm).mono hG).grows hs hgrows, hfresh⟩
  failed hfailed hG' := h.failed hfailed (hG hG')

theorem ofParts {make : List δ → Making TypeId} {parts : Parts δ} (hs : s.Sound)
    (hfailed : parts.2 → ¬G) (hmake : Steady (make parts.1) s (Sensible pool G)) :
    Repeats G (ofParts make parts) s (Sensible pool) := by
  unfold Resolving.ofParts
  split
  next h => exact ret hs (.error (hfailed h))
  next => exact made hmake

end Parts

theorem ofContent {pool : Proto.Pool} {parts : Parts (TemplateParameter TypeId)} {t : TypeId}
    (hs : s.Sound) (hparts : SensibleParts pool templateParamRule [] G s parts)
    (ht : s.Sensible pool G t) (l : Location) :
    Repeats G (ofContent l parts t) s (Sensible pool) := by
  obtain ⟨htypes, -⟩ := hparts.parts (·.name) (fun _ _ => rfl) (·.type) fun _ _ => rfl
  refine read hs (fun later _ hgrows report => ?_) ?_
  · rw [kind, hgrows.data ht.known]
    rfl
  · dsimp only
    split
    · exact ofParts hs hparts.failed (Steady.template hs htypes ht)
    · exact display hs ht.known fun text => faulty hs ..

theorem ofArguments {pool : Proto.Pool} {types : List TypeId} (hs : s.Sound)
    (htypes : ∀ t ∈ types, s.Sensible pool G t) (l : Location) (name : String) (arity : Nat) :
    Repeats G (ofArguments l name arity types) s (Sensible pool) := by
  unfold Resolving.ofArguments
  split
  next make hmake => exact made (Steady.applyGeneric hs htypes hmake)
  next => exact faulty hs ..

theorem resolveStep (ih : All registry resolve) : All registry (resolveStep registry resolve) := by
  intro e G s h hs
  cases e with
  | named l name => exact resolveName h hs name l
  | generic l name arguments =>
    rw [Resolving.resolveStep]
    split
    · exact resolveNotGeneric h hs name l
    · split
      · exact resolveElement hs l arguments
      · exact (resolveList ih arguments h hs).bind fun types s₁ G₁ _ hs₁ _ htypes =>
          ofArguments hs₁ htypes l name _
  | union l candidates =>
    exact (resolveList ih candidates h hs).bind fun types s₁ G₁ _ hs₁ _ htypes =>
      made (Steady.union hs₁ htypes)
  | intersection l candidates =>
    exact (resolveList ih candidates h hs).bind fun types s₁ G₁ _ hs₁ _ htypes =>
      made (Steady.intersection hs₁ htypes)
  | record l fields =>
    refine (resolveParts (fun g G s hs => complain hs ..) ih fields h hs []).bind
      fun parts s₁ G₁ _ hs₁ _ hparts => ?_
    obtain ⟨htypes, hnames⟩ := hparts.parts (·.name) (fun _ _ => rfl) (·.type) fun _ _ => rfl
    exact ofParts hs₁ hparts.failed (Steady.record hs₁ htypes hnames)
  | template l parameters result =>
    refine (resolveParts (fun g G s hs => complain hs ..) ih parameters h hs []).bind
      fun parts s₁ G₁ hG₁ hs₁ hgrows₁ hparts => ?_
    refine (ih result G₁ s₁ (h.later hG₁ hs hgrows₁) hs₁).bind
      fun t s₂ G₂ hG₂ hs₂ hgrows₂ ht => ?_
    exact ofContent hs₂ (hparts.later hG₂ hs₁ hgrows₂) ht result.location
  | function l parameters result =>
    refine (resolveParts (fun g G s hs => complain hs ..) ih parameters h hs []).bind
      fun parts s₁ G₁ hG₁ hs₁ hgrows₁ hparts => ?_
    refine (ih result G₁ s₁ (h.later hG₁ hs hgrows₁) hs₁).bind
      fun t s₂ G₂ hG₂ hs₂ hgrows₂ ht => ?_
    have hparts := hparts.later hG₂ hs₁ hgrows₂
    obtain ⟨htypes, -⟩ := hparts.parts (·.name) (fun _ _ => rfl) (·.type) fun _ _ => rfl
    exact ofParts hs₂ hparts.failed (Steady.function hs₂ htypes ht)
  | indexed l base property =>
    exact (ih base G s h hs).bind fun t s₁ G₁ hG₁ hs₁ hgrows ht =>
      indexType (h.later hG₁ hs hgrows) hs₁ ht property l
  | literal l value => exact resolveLiteral hs l value

theorem resolveWithin (registry : Registry) (room : Nat) :
    All registry (resolveWithin registry room) :=
  resolveWithin_induct registry room (motive := fun _ => All registry)
    (fun _ _ _ _ hs => tooDeep hs _) fun _ _ => resolveStep

end Expressions
end Repeats
end TemplateCheck
