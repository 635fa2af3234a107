import TemplateCheck.Proofs.Resolve.Lacking
import TemplateCheck.Proofs.Resolve.Repeating
import TemplateCheck.Proofs.Types.Session

/-! Resolving an expression in two stores at once. It leads to counterparts and to complaints about
the same places. The complaints have the same codes, unless they say why a property is lacking and
the stores begin with members that lack it for different reasons. -/

namespace TemplateCheck
open TypeStore

namespace TypeStore
variable {s s' r r' : TypeStore} {t u : TypeId} {d d' : Diagnostic} {l : Location} {name : String}

/-- What is said of a property that a type lacks. -/
def complaint? (s : TypeStore) (l : Location) (name : String) (t : TypeId) : Option Diagnostic :=
  match s.lack? name t with
  | some .missing => some (.of .error l .noSuchProperty [s.display t, name])
  | some .notIndexable => some (.of .error l .notIndexable [s.display t])
  | _ => none

/-- The diagnostics say why counterparts lack one property, and give different reasons. -/
def Disputed (s s' : TypeStore) (d d' : Diagnostic) : Prop :=
  ∃ t u l name, s.Counterparts s' t u ∧ s.lack? name t ≠ s'.lack? name u ∧
    s.complaint? l name t = some d ∧ s'.complaint? l name u = some d'

/-- The diagnostics are about the same place, and have the same code unless it is disputed. -/
structure Corresponds (s s' : TypeStore) (d d' : Diagnostic) : Prop where
  file : d.file = d'.file
  start : d.start = d'.start
  length : d.length = d'.length
  severity : d.severity = d'.severity
  code : d.code = d'.code ↔ ¬ s.Disputed s' d d'

theorem complaint?_cases (h : s.complaint? l name t = some d) :
    s.lack? name t = some .missing ∧ d = .of .error l .noSuchProperty [s.display t, name] ∨
      s.lack? name t = some .notIndexable ∧ d = .of .error l .notIndexable [s.display t] := by
  rw [complaint?] at h
  split at h
  next hlack => exact .inl ⟨hlack, (Option.some.inj h).symm⟩
  next hlack => exact .inr ⟨hlack, (Option.some.inj h).symm⟩
  next => cases h

theorem Grows.complaint? (hgrows : s.Grows r) (hs : s.Sound) (hr : r.Sound) (ht : s.Known t) :
    r.complaint? l name t = s.complaint? l name t := by
  rw [TypeStore.complaint?, TypeStore.complaint?, hgrows.lack? hs ht, display, display,
    hgrows.fold hs hr ht]

namespace Disputed

theorem code_ne (h : s.Disputed s' d d') : d.code ≠ d'.code := by
  obtain ⟨t, u, l, name, -, hlack, hd, hd'⟩ := h
  rcases complaint?_cases hd with ⟨hlack₁, rfl⟩ | ⟨hlack₁, rfl⟩
  · rcases complaint?_cases hd' with ⟨hlack₂, rfl⟩ | ⟨-, rfl⟩
    · exact absurd (hlack₁.trans hlack₂.symm) hlack
    · simp [Diagnostic.of, Message.code]
  · rcases complaint?_cases hd' with ⟨-, rfl⟩ | ⟨hlack₂, rfl⟩
    · simp [Diagnostic.of, Message.code]
    · exact absurd (hlack₁.trans hlack₂.symm) hlack

theorem grows (h : s.Disputed s' d d') (hs : s.Sound) (hs' : s'.Sound) (hr : r.Sound)
    (hr' : r'.Sound) (hgrows : s.Grows r) (hgrows' : s'.Grows r') : r.Disputed r' d d' := by
  obtain ⟨t, u, l, name, htu, hlack, hd, hd'⟩ := h
  have ht := htu.shaped.known
  have hu := htu.shaped'.known
  refine ⟨t, u, l, name, htu.grows hs hs' hr hr' hgrows hgrows', ?_, ?_, ?_⟩
  · rwa [hgrows.lack? hs ht, hgrows'.lack? hs' hu]
  · rwa [hgrows.complaint? hs hr ht]
  · rwa [hgrows'.complaint? hs' hr' hu]

end Disputed

namespace Corresponds

theorem of (hcode : d.code = d'.code ∨ s.Disputed s' d d') {message message' : Message}
    {arguments arguments' : List String} (hd : d = .of .error l message arguments)
    (hd' : d' = .of .error l message' arguments') : s.Corresponds s' d d' := by
  subst hd hd'
  refine ⟨rfl, rfl, rfl, rfl, ?_⟩
  rcases hcode with hcode | hdisputed
  · exact iff_of_true hcode fun h => h.code_ne hcode
  · exact iff_of_false hdisputed.code_ne fun h => h hdisputed

theorem grows (h : s.Corresponds s' d d') (hs : s.Sound) (hs' : s'.Sound) (hr : r.Sound)
    (hr' : r'.Sound) (hgrows : s.Grows r) (hgrows' : s'.Grows r') : r.Corresponds r' d d' := by
  refine ⟨h.file, h.start, h.length, h.severity, fun hcode hdisputed => hdisputed.code_ne hcode,
    fun h' => h.code.2 fun hdisputed => h' ?_⟩
  exact hdisputed.grows hs hs' hr hr' hgrows hgrows'

theorem of_lacking (htu : s.Counterparts s' t u) (hd : s.complaint? l name t = some d)
    (hd' : s'.complaint? l name u = some d') : s.Corresponds s' d d' := by
  have hcode : d.code = d'.code ∨ s.Disputed s' d d' := by
    by_cases hlack : s.lack? name t = s'.lack? name u
    · left
      rcases complaint?_cases hd with ⟨hlack₁, rfl⟩ | ⟨hlack₁, rfl⟩
      · rcases complaint?_cases hd' with ⟨-, rfl⟩ | ⟨hlack₂, -⟩
        · rfl
        · simp [← hlack, hlack₁] at hlack₂
      · rcases complaint?_cases hd' with ⟨hlack₂, -⟩ | ⟨-, rfl⟩
        · simp [← hlack, hlack₁] at hlack₂
        · rfl
    · exact .inr ⟨t, u, l, name, htu, hlack, hd, hd'⟩
  rcases complaint?_cases hd with ⟨-, h⟩ | ⟨-, h⟩ <;>
    rcases complaint?_cases hd' with ⟨-, h'⟩ | ⟨-, h'⟩ <;> exact of hcode h h'

end Corresponds
end TypeStore

structure Reports {α : Type} (m : Resolving α) (s : TypeStore) (a : α) (r : TypeStore)
    (ds : List Diagnostic) : Prop where
  run : ∀ report, m ⟨s, report⟩ = (a, ⟨r, report.extend ds⟩)
  sound : r.Sound
  grows : s.Grows r

namespace Reports
variable {α β : Type} {m : Resolving α} {f : α → Resolving β} {s r q : TypeStore} {a : α} {b : β}
  {ds es : List Diagnostic}

theorem ret (hs : s.Sound) : Reports (pure a) s a s [] := by
  refine ⟨fun report => ?_, hs, .refl s⟩
  rw [report.extend_nil]
  rfl

theorem bind (hm : Reports m s a r ds) (hf : Reports (f a) r b q es) :
    Reports (m >>= f) s b q (ds ++ es) := by
  refine ⟨fun report => ?_, hf.sound, hm.grows.trans hf.grows⟩
  change f (m ⟨s, report⟩).1 (m ⟨s, report⟩).2 = _
  rw [hm.run, hf.run, Report.extend_extend]

theorem making {m : Making α} (hsound : (m s).2.Sound) (hgrows : s.Grows (m s).2) :
    Reports (Resolving.making m) s (m s).1 (m s).2 [] := by
  refine ⟨fun report => ?_, hsound, hgrows⟩
  rw [report.extend_nil]
  rfl

theorem complain (hs : s.Sound) (l : Location) (message : Message) (arguments : List String) :
    Reports (Resolving.complain l message arguments) s () s [.of .error l message arguments] :=
  ⟨fun _ => rfl, hs, .refl s⟩

theorem faulty (hs : s.Sound) (l : Location) (message : Message) (arguments : List String) :
    Reports (Resolving.faulty l message arguments) s .error s [.of .error l message arguments] :=
  (complain hs l message arguments).bind (ret hs)

theorem read {f : Resolution → Resolving β} (hask : ∀ report, f ⟨s, report⟩ = f ⟨s, .empty⟩)
    (hf : Reports (f ⟨s, .empty⟩) s b q es) : Reports (get >>= f) s b q es := by
  refine ⟨fun report => ?_, hf.sound, hf.grows⟩
  change f ⟨s, report⟩ ⟨s, report⟩ = _
  rw [hask]
  exact hf.run report

theorem display {f : String → Resolving β} {t : TypeId}
    (hf : Reports (f (s.display t)) s b q es) : Reports (Resolving.display t >>= f) s b q es :=
  read (f := fun r => f (r.store.display t)) (fun _ => rfl) hf

end Reports

/-- Run in `s` and in `s'`, the computations report corresponding diagnostics, and their results
together meet `post`. -/
def Concurs {α β : Type} (m : Resolving α) (m' : Resolving β) (s s' : TypeStore)
    (post : TypeStore → TypeStore → α → β → Prop) : Prop :=
  ∃ a r ds b r' ds', Reports m s a r ds ∧ Reports m' s' b r' ds' ∧ post r r' a b ∧
    List.Forall₂ (r.Corresponds r') ds ds'

namespace Concurs
open Resolving

section Steps
variable {α β γ δ : Type} {m : Resolving α} {m' : Resolving β} {f : α → Resolving γ}
  {f' : β → Resolving δ} {s s' : TypeStore} {P : TypeStore → TypeStore → α → β → Prop}
  {Q : TypeStore → TypeStore → γ → δ → Prop} {t u : TypeId} {l : Location} {message : Message}

theorem ret {a : α} {b : β} (hs : s.Sound) (hs' : s'.Sound) (h : P s s' a b) :
    Concurs (pure a) (pure b) s s' P :=
  ⟨a, s, [], b, s', [], .ret hs, .ret hs', h, .nil⟩

theorem bind (hm : Concurs m m' s s' P)
    (hf : ∀ a b r r', r.Sound → r'.Sound → s.Grows r → s'.Grows r' → P r r' a b →
      Concurs (f a) (f' b) r r' Q) : Concurs (m >>= f) (m' >>= f') s s' Q := by
  obtain ⟨a, r, ds, b, r', ds', hrun, hrun', hab, hds⟩ := hm
  obtain ⟨c, q, es, e, q', es', hrun₁, hrun₁', hce, hes⟩ :=
    hf a b r r' hrun.sound hrun'.sound hrun.grows hrun'.grows hab
  refine ⟨c, q, ds ++ es, e, q', ds' ++ es', hrun.bind hrun₁, hrun'.bind hrun₁', hce, ?_⟩
  refine List.rel_append (hds.imp fun d d' hd => ?_) hes
  exact hd.grows hrun.sound hrun'.sound hrun₁.sound hrun₁'.sound hrun₁.grows hrun₁'.grows

theorem making {m : Making α} {m' : Making β} (h : Parallel m m' s s' P) :
    Concurs (making m) (making m') s s' P :=
  ⟨_, _, [], _, _, [], .making h.sound h.grows, .making h.sound' h.grows', h.result, .nil⟩

theorem complain (hs : s.Sound) (hs' : s'.Sound) (l : Location) (message : Message)
    (arguments arguments' : List String) :
    Concurs (complain l message arguments) (complain l message arguments') s s'
      fun _ _ _ _ => True :=
  ⟨(), s, _, (), s', _, .complain hs .., .complain hs' .., trivial,
    .cons (.of (.inl rfl) rfl rfl) .nil⟩

theorem faulty (hs : s.Sound) (hs' : s'.Sound) (l : Location) (message : Message)
    (arguments arguments' : List String) :
    Concurs (faulty l message arguments) (faulty l message arguments') s s' Counterparts :=
  (complain hs hs' l message arguments arguments').bind fun _ _ _ _ hr hr' _ _ _ =>
    ret hr hr' (.error hr hr')

theorem read {f : Resolution → Resolving γ} {f' : Resolution → Resolving δ}
    (hask : ∀ report, f ⟨s, report⟩ = f ⟨s, .empty⟩)
    (hask' : ∀ report, f' ⟨s', report⟩ = f' ⟨s', .empty⟩)
    (hf : Concurs (f ⟨s, .empty⟩) (f' ⟨s', .empty⟩) s s' Q) :
    Concurs (get >>= f) (get >>= f') s s' Q := by
  obtain ⟨c, q, es, e, q', es', hrun, hrun', hce, hes⟩ := hf
  exact ⟨c, q, es, e, q', es', hrun.read hask, hrun'.read hask', hce, hes⟩

theorem display {f : String → Resolving γ} {f' : String → Resolving δ}
    (hf : ∀ text text', Concurs (f text) (f' text') s s' Q) :
    Concurs (display t >>= f) (display u >>= f') s s' Q := by
  obtain ⟨c, q, es, e, q', es', hrun, hrun', hce, hes⟩ := hf (s.display t) (s'.display u)
  exact ⟨c, q, es, e, q', es', hrun.display, hrun'.display, hce, hes⟩

end Steps
end Concurs

def Registry.Shared (registry : Registry) (s s' : TypeStore) : Prop :=
  ∀ entry ∈ registry.aliases, s.Counterparts s' entry.2 entry.2

theorem Registry.Shared.grows {registry : Registry} {s s' r r' : TypeStore}
    (h : registry.Shared s s') (hs : s.Sound) (hs' : s'.Sound) (hr : r.Sound) (hr' : r'.Sound)
    (hgrows : s.Grows r) (hgrows' : s'.Grows r') : registry.Shared r r' :=
  fun entry hentry => (h entry hentry).grows hs hs' hr hr' hgrows hgrows'

section Names
variable {registry : Registry} {s s' : TypeStore} {t u : TypeId} {ts us : List TypeId}

namespace Parallel

theorem builtins : ∀ entry ∈ Registry.builtins, ∀ s s' : TypeStore, s.Sound → s'.Sound →
    Parallel entry.2 entry.2 s s' Counterparts := by
  have hintrinsic (kind : Intrinsic) (s s' : TypeStore) (hs : s.Sound) (hs' : s'.Sound) :
      Parallel (pure (.ofIntrinsic kind)) (pure (.ofIntrinsic kind)) s s' Counterparts :=
    ret hs hs' (.ofIntrinsic hs hs' kind)
  have hnumber (s s' : TypeStore) (hs : s.Sound) (hs' : s'.Sound) :
      Parallel TypeStore.number TypeStore.number s s' Counterparts :=
    union2 hs hs' (.ofIntrinsic hs hs' .int) (.ofIntrinsic hs hs' .float)
  simp only [Registry.builtins, List.forall_mem_cons]
  exact ⟨hintrinsic .any, hintrinsic .unknown, hintrinsic .never, hintrinsic .null,
    hintrinsic .undefined, hintrinsic .bool, hintrinsic .int, hintrinsic .float, hnumber,
    hintrinsic .string, hintrinsic .html, hintrinsic .css, hintrinsic .js, hintrinsic .uri,
    hintrinsic .trustedResourceUri, hintrinsic .attributes, hintrinsic .message,
    List.forall_mem_nil _⟩

def Found (s s' : TypeStore) (x y : Option TypeId) : Prop := Option.Rel (s.Counterparts s') x y

def FoundFirst (s s' : TypeStore) (x y : Option (TypeId × List String)) : Prop :=
  Option.Rel (fun p q => s.Counterparts s' p.1 q.1 ∧ p.2 = q.2) x y

theorem named (h : registry.Shared s s') (hs : s.Sound) (hs' : s'.Sound) (name : String) :
    Parallel (registry.named? name) (registry.named? name) s s' Found := by
  have hsome (s s' : TypeStore) (t u : TypeId) (htu : s.Counterparts s' t u) :
      Found s s' (some t) (some u) :=
    .some htu
  unfold Registry.named?
  split
  next make hmake =>
    obtain ⟨before, after, hmem, -⟩ := List.lookup_eq_some_iff.1 hmake
    exact (builtins (name, make) (by simp [hmem]) s s' hs hs').map hsome
  next =>
    split
    next t halias =>
      obtain ⟨before, after, hmem, -⟩ := List.lookup_eq_some_iff.1 halias
      exact ret hs hs' (hsome s s' t t (h (name, t) (by simp [hmem])))
    next =>
      split
      next m _ => exact (message hs hs' m).map hsome
      next =>
        split
        next e _ => exact (enum hs hs' e).map hsome
        next => exact ret hs hs' .none

theorem firstKnown (h : registry.Shared s s') (hs : s.Sound) (hs' : s'.Sound)
    (segments : List String) (count : Nat) :
    Parallel (Resolving.firstKnown registry segments count)
      (Resolving.firstKnown registry segments count) s s' FoundFirst := by
  induction count generalizing s s' with
  | zero => exact ret hs hs' .none
  | succ count ih =>
    refine (named h hs hs' _).bind fun x y r r' hr hr' hgrows hgrows' hxy => ?_
    cases hxy with
    | some htu => exact ret hr hr' (.some ⟨htu, rfl⟩)
    | none => exact ih (h.grows hs hs' hr hr' hgrows hgrows') hr hr'

theorem applyGeneric (hs : s.Sound) (hs' : s'.Sound) (name : String)
    (h : List.Forall₂ (s.Counterparts s') ts us) :
    Option.Rel (fun make make' => Parallel make make' s s' Counterparts)
      (Registry.applyGeneric name ts) (Registry.applyGeneric name us) := by
  unfold Registry.applyGeneric
  split
  · obtain ⟨u, _, htu, hnil, rfl⟩ := List.forall₂_cons_left_iff.1 h
    cases hnil
    exact .some (list hs hs' htu)
  · obtain ⟨u, _, htu, hnil, rfl⟩ := List.forall₂_cons_left_iff.1 h
    cases hnil
    exact .some (set hs hs' htu)
  · obtain ⟨u, _, htu, hnil, rfl⟩ := List.forall₂_cons_left_iff.1 h
    cases hnil
    exact .some (iterable hs hs' htu)
  · obtain ⟨u, _, hkey, hrest, rfl⟩ := List.forall₂_cons_left_iff.1 h
    obtain ⟨w, _, hvalue, hnil, rfl⟩ := List.forall₂_cons_left_iff.1 hrest
    cases hnil
    exact .some (mapType hs hs' hkey hvalue)
  · obtain ⟨u, _, hkey, hrest, rfl⟩ := List.forall₂_cons_left_iff.1 h
    obtain ⟨w, _, hvalue, hnil, rfl⟩ := List.forall₂_cons_left_iff.1 hrest
    cases hnil
    exact .some (legacyObjectMap hs hs' hkey hvalue)
  next hlist hset hiterable hmap hlegacy =>
    split
    · obtain ⟨t, _, -, hnil, rfl⟩ := List.forall₂_cons_right_iff.1 h
      cases hnil
      exact (hlist t rfl rfl).elim
    · obtain ⟨t, _, -, hnil, rfl⟩ := List.forall₂_cons_right_iff.1 h
      cases hnil
      exact (hset t rfl rfl).elim
    · obtain ⟨t, _, -, hnil, rfl⟩ := List.forall₂_cons_right_iff.1 h
      cases hnil
      exact (hiterable t rfl rfl).elim
    · obtain ⟨t, _, -, hrest, rfl⟩ := List.forall₂_cons_right_iff.1 h
      obtain ⟨v, _, -, hnil, rfl⟩ := List.forall₂_cons_right_iff.1 hrest
      cases hnil
      exact (hmap t v rfl rfl).elim
    · obtain ⟨t, _, -, hrest, rfl⟩ := List.forall₂_cons_right_iff.1 h
      obtain ⟨v, _, -, hnil, rfl⟩ := List.forall₂_cons_right_iff.1 hrest
      cases hnil
      exact (hlegacy t v rfl rfl).elim
    · exact .none

end Parallel

namespace Concurs
open Resolving

/-- What follows a look at a property. -/
def answer (l : Location) (name : String) (t : TypeId) : PropertyResult → Resolving TypeId
  | .found u => return u
  | .missing => do Resolving.faulty l .noSuchProperty [← Resolving.display t, name]
  | .notIndexable => do Resolving.faulty l .notIndexable [← Resolving.display t]

theorem reports_answer {a : PropertyResult} {l : Location} {name : String} (hs : s.Sound)
    (hlack : s.lack? name t = some a) :
    ∃ d, s.complaint? l name t = some d ∧ Reports (answer l name t a) s .error s [d] := by
  rw [complaint?, hlack]
  rcases lack?_cases hlack with rfl | rfl
  · exact ⟨_, rfl, .display (.faulty hs ..)⟩
  · exact ⟨_, rfl, .display (.faulty hs ..)⟩

theorem indexType (hs : s.Sound) (hs' : s'.Sound) (h : s.Counterparts s' t u) (name : String)
    (l : Location) :
    Concurs (indexType registry t name l) (indexType registry u name l) s s' Counterparts := by
  change Concurs (Resolving.making _ >>= answer l name t) (Resolving.making _ >>= answer l name u)
    s s' Counterparts
  refine (making (Parallel.look hs hs' registry.pool h name)).bind
    fun a b r r' hr hr' hgrows hgrows' hlook => ?_
  rcases hlook with ⟨v, w, rfl, rfl, hvw⟩ | ⟨hlack, hlack'⟩
  · exact ret hr hr' hvw
  · obtain ⟨d, hd, hrun⟩ := reports_answer (l := l) hr hlack
    obtain ⟨d', hd', hrun'⟩ := reports_answer (l := l) hr' hlack'
    have htu := h.grows hs hs' hr hr' hgrows hgrows'
    exact ⟨.error, r, [d], .error, r', [d'], hrun, hrun', .error hr hr',
      .cons (.of_lacking htu hd hd') .nil⟩

theorem indexAll (hs : s.Sound) (hs' : s'.Sound) (h : s.Counterparts s' t u) (l : Location)
    (names : List String) :
    Concurs (indexAll registry l t names) (indexAll registry l u names) s s' Counterparts := by
  induction names generalizing s s' t u with
  | nil => exact ret hs hs' h
  | cons name rest ih =>
    exact (indexType hs hs' h name l).bind fun v w r r' hr hr' _ _ hvw => ih hr hr' hvw

theorem resolveName (h : registry.Shared s s') (hs : s.Sound) (hs' : s'.Sound) (name : String)
    (l : Location) :
    Concurs (resolveName registry name l) (resolveName registry name l) s s' Counterparts := by
  refine (making (Parallel.named h hs hs' name)).bind fun x y r r' hr hr' hgrows hgrows' hxy => ?_
  cases hxy with
  | some htu => exact ret hr hr' htu
  | none =>
    have h := h.grows hs hs' hr hr' hgrows hgrows'
    refine (making (Parallel.firstKnown h hr hr' _ _)).bind fun x y q q' hq hq' _ _ hxy => ?_
    cases hxy with
    | some hfound =>
      obtain ⟨htu, hnames⟩ := hfound
      dsimp only
      rw [hnames]
      exact indexAll hq hq' htu l _
    | none =>
      dsimp only
      split
      · exact faulty hq hq' ..
      · exact faulty hq hq' ..

theorem resolveNotGeneric (h : registry.Shared s s') (hs : s.Sound) (hs' : s'.Sound)
    (name : String) (l : Location) :
    Concurs (resolveNotGeneric registry name l) (resolveNotGeneric registry name l) s s'
      Counterparts := by
  refine (making (Parallel.named h hs hs' name)).bind fun x y r r' hr hr' _ _ hxy => ?_
  cases hxy with
  | some _ => exact faulty hr hr' ..
  | none => exact faulty hr hr' ..

theorem resolveElement (hs : s.Sound) (hs' : s'.Sound) (l : Location)
    (arguments : List TypeExpr) :
    Concurs (resolveElement l arguments) (resolveElement l arguments) s s' Counterparts := by
  unfold Resolving.resolveElement
  split
  next tagLocation tag =>
    split
    · exact faulty hs hs' ..
    · exact making (Parallel.element hs hs' tag)
  · exact faulty hs hs' ..
  · exact faulty hs hs' ..

theorem resolveLiteral (hs : s.Sound) (hs' : s'.Sound) (l : Location)
    (value : TypeExpr.Literal) :
    Concurs (resolveLiteral l value) (resolveLiteral l value) s s' Counterparts := by
  cases value with
  | null => exact ret hs hs' (.ofIntrinsic hs hs' .null)
  | undefined => exact ret hs hs' (.ofIntrinsic hs hs' .undefined)
  | string value => exact making (Parallel.literal hs hs' value)
  | other text => exact faulty hs hs' ..

end Concurs
end Names

namespace Concurs
open Resolving

section Expressions
variable {registry : Registry} {resolve : TypeExpr → Resolving TypeId} {s s' : TypeStore}

def All (registry : Registry) (resolve : TypeExpr → Resolving TypeId) : Prop :=
  ∀ (e : TypeExpr) (s s' : TypeStore), registry.Shared s s' → s.Sound → s'.Sound →
    Concurs (resolve e) (resolve e) s s' Counterparts

def SharedTypes (s s' : TypeStore) (ts us : List TypeId) : Prop :=
  List.Forall₂ (s.Counterparts s') ts us

theorem resolveList (hall : All registry resolve) (es : List TypeExpr)
    (h : registry.Shared s s') (hs : s.Sound) (hs' : s'.Sound) :
    Concurs (resolveList resolve es) (resolveList resolve es) s s' SharedTypes := by
  induction es generalizing s s' with
  | nil => exact ret hs hs' .nil
  | cons e rest ih =>
    refine (hall e s s' h hs hs').bind fun t u r r' hr hr' hgrows hgrows' htu => ?_
    refine (ih (h.grows hs hs' hr hr' hgrows hgrows') hr hr').bind
      fun ts us q q' hq hq' hgrows hgrows' htus => ?_
    exact ret hq hq' (.cons (htu.grows hr hr' hq hq' hgrows hgrows') htus)

structure SharedParts {γ δ : Type} (rule : PartRule γ δ) (seen : List String) (s s' : TypeStore)
    (parts parts' : Parts δ) : Prop where
  made : ∃ made : List (γ × TypeId × TypeId),
    parts.1 = made.map (fun m => rule.make m.1 m.2.1) ∧
      parts'.1 = made.map (fun m => rule.make m.1 m.2.2) ∧
        (∀ m ∈ made, s.Counterparts s' m.2.1 m.2.2) ∧ Fresh seen (made.map fun m => rule.name m.1)
  failed : parts.2 = parts'.2

section Parts
variable {γ δ : Type} {rule : PartRule γ δ} {seen : List String}

theorem resolveParts
    (hrepeated : ∀ g (s s' : TypeStore), s.Sound → s'.Sound →
      Concurs (rule.repeated g) (rule.repeated g) s s' fun _ _ _ _ => True)
    (hall : All registry resolve) (given : List γ) (h : registry.Shared s s') (hs : s.Sound)
    (hs' : s'.Sound) (seen : List String) :
    Concurs (resolveParts rule resolve seen given) (resolveParts rule resolve seen given) s s'
      (SharedParts rule seen) := by
  induction given generalizing s s' seen with
  | nil => exact ret hs hs' ⟨⟨[], rfl, rfl, List.forall_mem_nil _, .nil seen⟩, rfl⟩
  | cons g rest ih =>
    refine (hall (rule.type g) s s' h hs hs').bind fun t u r r' hr hr' hgrows hgrows' htu => ?_
    have h := h.grows hs hs' hr hr' hgrows hgrows'
    split
    · refine (hrepeated g r r' hr hr').bind fun _ _ q q' hq hq' hgrows hgrows' _ => ?_
      refine (ih (h.grows hr hr' hq hq' hgrows hgrows') hq hq' seen).bind
        fun parts parts' p p' hp hp' _ _ hparts => ret hp hp' ?_
      exact ⟨hparts.made, rfl⟩
    next hseen =>
      refine (ih h hr hr' (rule.name g :: seen)).bind
        fun parts parts' q q' hq hq' hgrows hgrows' hparts => ret hq hq' ?_
      obtain ⟨made, hmake, hmake', hmade, hfresh⟩ := hparts.made
      have htu := htu.grows hr hr' hq hq' hgrows hgrows'
      exact ⟨⟨(g, t, u) :: made, by rw [Parts.add, hmake]; rfl, by rw [Parts.add, hmake']; rfl,
        List.forall_mem_cons.2 ⟨htu, hmade⟩, hfresh.cons hseen⟩, hparts.failed⟩

theorem SharedParts.grows {r r' : TypeStore} {parts parts' : Parts δ}
    (h : SharedParts rule seen s s' parts parts') (hs : s.Sound) (hs' : s'.Sound) (hr : r.Sound)
    (hr' : r'.Sound) (hgrows : s.Grows r) (hgrows' : s'.Grows r') :
    SharedParts rule seen r r' parts parts' where
  made := by
    obtain ⟨made, hparts, hparts', hmade, hfresh⟩ := h.made
    exact ⟨made, hparts, hparts',
      fun m hm => (hmade m hm).grows hs hs' hr hr' hgrows hgrows', hfresh⟩
  failed := h.failed

theorem SharedParts.parts {parts parts' : Parts δ} (h : SharedParts rule seen s s' parts parts')
    {R : δ → δ → Prop} (hR : ∀ g t u, s.Counterparts s' t u → R (rule.make g t) (rule.make g u)) (name : δ → String)
    (hname : ∀ g t, name (rule.make g t) = rule.name g) :
    List.Forall₂ R parts.1 parts'.1 ∧ (parts.1.map name).Nodup := by
  obtain ⟨made, hparts, hparts', hmade, hfresh⟩ := h.made
  constructor
  · rw [hparts, hparts', List.forall₂_map_left_iff, List.forall₂_map_right_iff,
      List.forall₂_same]
    exact fun m hm => hR m.1 m.2.1 m.2.2 (hmade m hm)
  · have hnames : made.map (name ∘ fun m => rule.make m.1 m.2.1) =
        made.map fun m => rule.name m.1 := List.map_congr_left fun m _ => hname m.1 m.2.1
    rw [hparts, List.map_map, hnames]
    exact hfresh.nodup

theorem ofParts {make make' : List δ → Making TypeId} {parts parts' : Parts δ} (hs : s.Sound)
    (hs' : s'.Sound) (hfailed : parts.2 = parts'.2)
    (hmake : Parallel (make parts.1) (make' parts'.1) s s' Counterparts) :
    Concurs (ofParts make parts) (ofParts make' parts') s s' Counterparts := by
  unfold Resolving.ofParts
  rw [← hfailed]
  split
  · exact ret hs hs' (.error hs hs')
  · exact making hmake

end Parts

section Makings
variable {t u : TypeId} {ts us : List TypeId} (hs : s.Sound) (hs' : s'.Sound)
include hs hs'

theorem ofContent {parts parts' : Parts (TemplateParameter TypeId)}
    (hparts : SharedParts templateParamRule [] s s' parts parts') (htu : s.Counterparts s' t u)
    (l : Location) : Concurs (ofContent l parts t) (ofContent l parts' u) s s' Counterparts := by
  obtain ⟨hparameters, hnames⟩ :=
    hparts.parts (R := TemplateParameter.Alike (s.Counterparts s'))
      (fun _ _ _ htu => ⟨rfl, rfl, rfl, htu⟩) (·.name) fun _ _ => rfl
  refine read (fun _ => rfl) (fun _ => rfl) ?_
  dsimp only
  rw [← htu.kind_eq hs hs']
  split
  next hcontent =>
    exact ofParts hs hs' hparts.failed (Parallel.template hs hs' hparameters hnames htu hcontent)
  next => exact display fun _ _ => faulty hs hs' ..

theorem ofArguments (htus : SharedTypes s s' ts us) (l : Location) (name : String) (arity : Nat) :
    Concurs (ofArguments l name arity ts) (ofArguments l name arity us) s s' Counterparts := by
  have happly := Parallel.applyGeneric hs hs' name htus
  unfold Resolving.ofArguments
  generalize Registry.applyGeneric name ts = x at happly
  generalize Registry.applyGeneric name us = y at happly
  cases happly with
  | some hmake => exact making hmake
  | none => exact faulty hs hs' ..

end Makings

theorem resolveStep (ih : All registry resolve) : All registry (resolveStep registry resolve) := by
  intro e s s' h hs hs'
  cases e with
  | named l name => exact resolveName h hs hs' name l
  | generic l name arguments =>
    rw [Resolving.resolveStep]
    split
    · exact resolveNotGeneric h hs hs' name l
    · split
      · exact resolveElement hs hs' l arguments
      · exact (resolveList ih arguments h hs hs').bind fun ts us r r' hr hr' _ _ htus =>
          ofArguments hr hr' htus l name _
  | union l candidates =>
    exact (resolveList ih candidates h hs hs').bind fun ts us r r' hr hr' _ _ htus =>
      making (Parallel.union hr hr' htus.length_eq (.of_forall₂ htus))
  | intersection l candidates =>
    exact (resolveList ih candidates h hs hs').bind fun ts us r r' hr hr' _ _ htus =>
      making (Parallel.intersection hr hr' htus.length_eq (.of_forall₂ htus))
  | record l fields =>
    refine (resolveParts (fun g s s' hs hs' => complain hs hs' ..) ih fields h hs hs' []).bind
      fun parts parts' r r' hr hr' _ _ hparts => ?_
    obtain ⟨hproperties, hnames⟩ := hparts.parts (R := RecordProperty.Alike (r.Counterparts r'))
      (fun _ _ _ htu => ⟨rfl, rfl, htu⟩) (·.name) fun _ _ => rfl
    exact ofParts hr hr' hparts.failed (Parallel.record hr hr' hproperties hnames)
  | template l parameters result =>
    refine (resolveParts (fun g s s' hs hs' => complain hs hs' ..) ih parameters h hs hs'
      []).bind fun parts parts' r r' hr hr' hgrows hgrows' hparts => ?_
    refine (ih result r r' (h.grows hs hs' hr hr' hgrows hgrows') hr hr').bind
      fun t u q q' hq hq' hgrows hgrows' htu => ?_
    exact ofContent hq hq' (hparts.grows hr hr' hq hq' hgrows hgrows') htu result.location
  | function l parameters result =>
    refine (resolveParts (fun g s s' hs hs' => complain hs hs' ..) ih parameters h hs hs'
      []).bind fun parts parts' r r' hr hr' hgrows hgrows' hparts => ?_
    refine (ih result r r' (h.grows hs hs' hr hr' hgrows hgrows') hr hr').bind
      fun t u q q' hq hq' hgrows hgrows' htu => ?_
    have hparts := hparts.grows hr hr' hq hq' hgrows hgrows'
    obtain ⟨hparameters, hnames⟩ :=
      hparts.parts (R := FunctionParameter.Alike (q.Counterparts q'))
        (fun _ _ _ htu => ⟨rfl, rfl, htu⟩) (·.name) fun _ _ => rfl
    exact ofParts hq hq' hparts.failed (Parallel.function hq hq' hparameters hnames htu)
  | indexed l base property =>
    exact (ih base s s' h hs hs').bind fun t u r r' hr hr' _ _ htu =>
      indexType hr hr' htu property l
  | literal l value => exact resolveLiteral hs hs' l value

theorem resolveWithin (registry : Registry) (room : Nat) :
    All registry (resolveWithin registry room) :=
  resolveWithin_induct registry room (motive := fun _ => All registry)
    (fun _ _ _ _ hs hs' => faulty hs hs' ..) fun _ _ => resolveStep

end Expressions
end Concurs

namespace Session
open Resolving
variable {σ τ : Session}

/-- An expression resolves to the same type whatever has been stored before, with diagnostics at
the same places. The codes are the same, but for properties that are lacking for more than one
reason. -/
theorem resolve_concurs (hσ : σ.Reached) (hτ : τ.Reached) {registry : Registry}
    (haliases : registry.aliases = []) (e : TypeExpr) (report report' : Report) :
    ∃ t s ds u s' ds', resolve registry e ⟨σ.store, report⟩ = (t, ⟨s, report.extend ds⟩) ∧
      resolve registry e ⟨τ.store, report'⟩ = (u, ⟨s', report'.extend ds'⟩) ∧
        (s.denote t).Alike (s'.denote u) ∧ List.Forall₂ (s.Corresponds s') ds ds' := by
  have hshared : registry.Shared σ.store τ.store := by
    rw [Registry.Shared, haliases]
    exact List.forall_mem_nil _
  obtain ⟨t, s, ds, u, s', ds', hrun, hrun', htu, hds⟩ :=
    Concurs.resolveWithin registry _ e σ.store τ.store hshared hσ.valid.sound hτ.valid.sound
  exact ⟨t, s, ds, u, s', ds', hrun.run report, hrun'.run report', htu.alike, hds⟩

def listed : Session := single.call (.list .int)

theorem reached_listed : listed.Reached :=
  reached_single.call_fixed (.list .int) trivial (by decide)

def lackingTwice : TypeExpr :=
  .indexed .unknown (.union .unknown [.record .unknown [⟨"a", .unknown, false,
    .named .unknown "int"⟩], .generic .unknown "list" [.named .unknown "int"]]) "b"

def lackingCodes (σ : Session) : List Nat :=
  (resolve (.empty (.empty 0)) lackingTwice ⟨σ.store, .empty⟩).2.report.diagnostics.map (·.code)

theorem lackingCodes_eq : single.lackingCodes = [1010] ∧ listed.lackingCodes = [1011] := by
  decide +kernel

theorem resolve_concurs_listed :
    single.Reached ∧ listed.Reached ∧ ∃ (s s' : TypeStore) (d d' : Diagnostic), s.Disputed s' d d' ∧
      single.lackingCodes = [d.code] ∧ listed.lackingCodes = [d'.code] := by
  refine ⟨reached_single, reached_listed, ?_⟩
  have haliases : (Registry.empty (.empty 0)).aliases = [] := rfl
  obtain ⟨t, s, ds, u, s', ds', hrun, hrun', -, hds⟩ :=
    resolve_concurs reached_single reached_listed haliases lackingTwice .empty .empty
  have hcodes : ds.map (·.code) = single.lackingCodes := by
    rw [lackingCodes, hrun]
    rfl
  have hcodes' : ds'.map (·.code) = listed.lackingCodes := by
    rw [lackingCodes, hrun']
    rfl
  obtain ⟨d, rfl, hd⟩ := List.map_eq_singleton_iff.1 (hcodes.trans lackingCodes_eq.1)
  obtain ⟨d', rfl, hd'⟩ := List.map_eq_singleton_iff.1 (hcodes'.trans lackingCodes_eq.2)
  cases hds with
  | cons hcorresponds _ =>
    refine ⟨s, s', d, d', by_contra fun hundisputed => ?_, hcodes.symm, hcodes'.symm⟩
    have hcode := hcorresponds.code.2 hundisputed
    simp [hd, hd'] at hcode

theorem codes_depend_on_history :
    ¬ ∀ (σ τ : Session) (registry : Registry) (e : TypeExpr) (report : Report), σ.Reached →
      τ.Reached → registry.aliases = [] →
        let x := resolve registry e ⟨σ.store, report⟩
        let y := resolve registry e ⟨τ.store, report⟩
        (x.2.store.denote x.1).Alike (y.2.store.denote y.1) ∧
          x.2.report.diagnostics.map (fun d => (d.code, d.file, d.start, d.length)) =
            y.2.report.diagnostics.map fun d => (d.code, d.file, d.start, d.length) := by
  intro h
  obtain ⟨-, heq⟩ := h single listed (.empty (.empty 0)) lackingTwice .empty reached_single
    reached_listed rfl
  have hcodes := congrArg (List.map Prod.fst) heq
  rw [List.map_map, List.map_map] at hcodes
  have hne : single.lackingCodes ≠ listed.lackingCodes := by
    rw [lackingCodes_eq.1, lackingCodes_eq.2]
    decide
  exact hne hcodes

end Session
end TemplateCheck
