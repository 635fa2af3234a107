import TemplateCheck.Proofs.Resolve.Tagging
import TemplateCheck.Proofs.TypeExpr.Acceptance

/-! Expressions that are the same up to places cannot be told apart: they are printed alike, and
resolve to the same type with the same complaints, made about other places. -/

namespace TemplateCheck
open TypeExpr TypeStore

/-- What a diagnostic says, wherever it says it. -/
def Diagnostic.said (d : Diagnostic) : Severity × Nat × String := (d.severity, d.code, d.text)

def Agree {α : Type} (m m' : Resolving α) : Prop :=
  ∀ s, ∃ a s' ds ds', (∀ report, m ⟨s, report⟩ = (a, ⟨s', report.extend ds⟩)) ∧
    (∀ report, m' ⟨s, report⟩ = (a, ⟨s', report.extend ds'⟩)) ∧
    ds.map Diagnostic.said = ds'.map Diagnostic.said

namespace Agree
open Resolving

section Steps
variable {α β : Type} {m m' : Resolving α} {f f' : α → Resolving β}

theorem eq_of_runs {s s₁ s₂ : TypeStore} {a b : α} {ds es : List Diagnostic}
    (h : ∀ report, m ⟨s, report⟩ = (a, ⟨s₁, report.extend ds⟩))
    (h' : ∀ report, m ⟨s, report⟩ = (b, ⟨s₂, report.extend es⟩)) : a = b ∧ s₁ = s₂ ∧ ds = es := by
  obtain ⟨heq, hstate⟩ := Prod.mk.inj ((h .empty).symm.trans (h' .empty))
  obtain ⟨hstore, hreport⟩ := Resolution.mk.inj hstate
  exact ⟨heq, hstore, Report.mk.inj hreport⟩

theorem ret (a : α) : Agree (pure a) (pure a) := by
  intro s
  have hrun (report : Report) :
      (pure a : Resolving α) ⟨s, report⟩ = (a, ⟨s, report.extend []⟩) := by
    rw [report.extend_nil]
    rfl
  exact ⟨a, s, [], [], hrun, hrun, rfl⟩

theorem bind (hm : Agree m m') (hf : ∀ a, Agree (f a) (f' a)) : Agree (m >>= f) (m' >>= f') := by
  intro s
  obtain ⟨a, s₁, ds, ds', hrun, hrun', hds⟩ := hm s
  obtain ⟨b, s₂, es, es', hruns, hruns', hes⟩ := hf a s₁
  refine ⟨b, s₂, ds ++ es, ds' ++ es', fun report => ?_, fun report => ?_, ?_⟩
  · change f (m ⟨s, report⟩).1 (m ⟨s, report⟩).2 = _
    rw [hrun, hruns, Report.extend_extend]
  · change f' (m' ⟨s, report⟩).1 (m' ⟨s, report⟩).2 = _
    rw [hrun', hruns', Report.extend_extend]
  · rw [List.map_append, List.map_append, hds, hes]

theorem making (m : Making α) : Agree (making m) (making m) := by
  intro s
  have hrun (report : Report) :
      Resolving.making m ⟨s, report⟩ = ((m s).1, ⟨(m s).2, report.extend []⟩) := by
    rw [report.extend_nil]
    rfl
  exact ⟨(m s).1, (m s).2, [], [], hrun, hrun, rfl⟩

theorem complain (l l' : Location) (message : Message) (arguments : List String) :
    Agree (complain l message arguments) (complain l' message arguments) :=
  fun s => ⟨(), s, [.of .error l message arguments], [.of .error l' message arguments],
    fun _ => rfl, fun _ => rfl, rfl⟩

theorem faulty (l l' : Location) (message : Message) (arguments : List String) :
    Agree (faulty l message arguments) (faulty l' message arguments) :=
  (complain l l' message arguments).bind fun _ => ret TypeId.error

theorem read {f f' : Resolution → Resolving β} (hask : ∀ s report, f ⟨s, report⟩ = f ⟨s, .empty⟩)
    (hask' : ∀ s report, f' ⟨s, report⟩ = f' ⟨s, .empty⟩)
    (hf : ∀ s, Agree (f ⟨s, .empty⟩) (f' ⟨s, .empty⟩)) : Agree (get >>= f) (get >>= f') := by
  intro s
  obtain ⟨a, s', ds, ds', hrun, hrun', hds⟩ := hf s s
  refine ⟨a, s', ds, ds', fun report => ?_, fun report => ?_, hds⟩
  · change f ⟨s, report⟩ ⟨s, report⟩ = _
    rw [hask]
    exact hrun report
  · change f' ⟨s, report⟩ ⟨s, report⟩ = _
    rw [hask']
    exact hrun' report

theorem display {f f' : String → Resolving β} (t : TypeId) (hf : ∀ text, Agree (f text) (f' text)) :
    Agree (display t >>= f) (display t >>= f') := by
  change Agree (get >>= fun r => f (r.store.display t)) (get >>= fun r => f' (r.store.display t))
  exact read (fun _ _ => rfl) (fun _ _ => rfl) fun _ => hf _

end Steps

section Names
variable (registry : Registry) (l l' : Location)

theorem indexType (t : TypeId) (property : String) :
    Agree (indexType registry t property l) (indexType registry t property l') := by
  refine (making _).bind fun result => ?_
  cases result with
  | found u => exact ret u
  | missing => exact display t fun text => faulty l l' _ _
  | notIndexable => exact display t fun text => faulty l l' _ _

theorem indexAll (t : TypeId) (properties : List String) :
    Agree (indexAll registry l t properties) (indexAll registry l' t properties) := by
  induction properties generalizing t with
  | nil => exact ret t
  | cons property rest ih => exact (indexType registry l l' t property).bind ih

theorem resolveName (name : String) :
    Agree (resolveName registry name l) (resolveName registry name l') := by
  refine (making _).bind fun found => ?_
  cases found with
  | some t => exact ret t
  | none =>
    refine (making _).bind fun found => ?_
    cases found with
    | some found => exact indexAll registry l l' _ _
    | none =>
      dsimp only
      split
      · exact faulty l l' _ _
      · exact faulty l l' _ _

theorem resolveNotGeneric (name : String) :
    Agree (resolveNotGeneric registry name l) (resolveNotGeneric registry name l') := by
  refine (making _).bind fun found => ?_
  split
  · exact faulty l l' _ _
  · exact faulty l l' _ _

theorem resolveLiteral (value : Literal) :
    Agree (resolveLiteral l value) (resolveLiteral l' value) := by
  cases value with
  | null => exact ret TypeId.null
  | undefined => exact ret TypeId.undefined
  | string value => exact making (TypeStore.literal value)
  | other text => exact faulty l l' _ _

variable {a b : TypeExpr} {as bs : List TypeExpr}

theorem resolveElement_single (h : same a b) :
    Agree (resolveElement l [a]) (resolveElement l' [b]) := by
  have hprint := print_eq_of_same h
  cases a <;> cases b <;> simp only [same, Bool.false_eq_true, beq_iff_eq] at h
  case named.named k name k' name' =>
    subst h
    simp only [Resolving.resolveElement]
    split
    · exact faulty k k' _ _
    · exact making _
  all_goals
    simp only [Resolving.resolveElement, hprint]
    exact faulty _ _ _ _

theorem resolveElement (h : List.Forall₂ (fun a b => same a b) as bs) :
    Agree (resolveElement l as) (resolveElement l' bs) := by
  cases h with
  | nil => exact faulty l l' _ _
  | cons hab hrest =>
    cases hrest with
    | nil => exact resolveElement_single l l' hab
    | cons _ hrest =>
      simp only [Resolving.resolveElement, List.length_cons, hrest.length_eq]
      exact faulty l l' _ _

end Names

section Expressions
variable {registry : Registry} {resolve : TypeExpr → Resolving TypeId} {as bs : List TypeExpr}

def OnSame (resolve : TypeExpr → Resolving TypeId) : Prop :=
  ∀ a b, same a b → Agree (resolve a) (resolve b)

theorem resolveList (hsame : OnSame resolve) (h : List.Forall₂ (fun a b => same a b) as bs) :
    Agree (resolveList resolve as) (resolveList resolve bs) := by
  induction h with
  | nil => exact ret []
  | cons hab _ ih => exact (hsame _ _ hab).bind fun t => ih.bind fun types => ret (t :: types)

structure SamePart {γ δ : Type} (rule : PartRule γ δ) (g g' : γ) : Prop where
  name : rule.name g = rule.name g'
  type : same (rule.type g) (rule.type g')
  make : rule.make g = rule.make g'
  repeated : Agree (rule.repeated g) (rule.repeated g')

theorem SamePart.field {f g : TypeExpr.Field TypeExpr} (h : SameField f g) :
    SamePart fieldRule f g := by
  obtain ⟨hname, hoptional, htype⟩ := h
  refine ⟨hname, htype, funext fun t => ?_, ?_⟩
  · show (⟨f.name, f.optional, t⟩ : RecordProperty TypeId) = _
    rw [hname, hoptional]
    rfl
  · show Agree (Resolving.complain _ _ [f.name]) _
    rw [hname]
    exact complain _ _ _ _

theorem SamePart.templateParam {p q : TemplateParam TypeExpr} (h : SameTemplateParam p q) :
    SamePart templateParamRule p q := by
  obtain ⟨hname, hspelling, hkind, hrequired, htype⟩ := h
  refine ⟨hname, htype, funext fun t => ?_, ?_⟩
  · show (⟨p.name, p.kind, p.required, t⟩ : TemplateParameter TypeId) = _
    rw [hname, hkind, hrequired]
    rfl
  · show Agree (Resolving.complain _ _ [p.spelling]) _
    rw [hspelling]
    exact complain _ _ _ _

theorem SamePart.functionParam {p q : FunctionParam TypeExpr} (h : SameFunctionParam p q) :
    SamePart functionParamRule p q := by
  obtain ⟨hname, hspelling, hvariadic, htype⟩ := h
  refine ⟨hname, htype, funext fun t => ?_, ?_⟩
  · show (⟨p.name, p.variadic, t⟩ : FunctionParameter TypeId) = _
    rw [hname, hvariadic]
    rfl
  · show Agree (Resolving.complain _ _ [p.spelling]) _
    rw [hspelling]
    exact complain _ _ _ _

theorem resolveParts {γ δ : Type} {rule : PartRule γ δ} {resolve : TypeExpr → Resolving TypeId}
    (hsame : OnSame resolve) {given given' : List γ} (h : List.Forall₂ (SamePart rule) given given')
    (seen : List String) :
    Agree (resolveParts rule resolve seen given) (resolveParts rule resolve seen given') := by
  induction h generalizing seen with
  | nil => exact ret _
  | @cons g g' rest rest' hg _ ih =>
    rw [Resolving.resolveParts, Resolving.resolveParts, ← hg.name, ← hg.make]
    refine (hsame _ _ hg.type).bind fun t => ?_
    split
    · exact hg.repeated.bind fun _ => (ih seen).bind fun _ => ret _
    · exact (ih _).bind fun _ => ret _

section Makings
variable (l l' : Location)

theorem ofParts {δ : Type} (make : List δ → Making TypeId) (parts : Parts δ) :
    Agree (ofParts make parts) (ofParts make parts) := by
  unfold Resolving.ofParts
  split
  · exact ret _
  · exact making _

theorem ofContent (parts : Parts (TemplateParameter TypeId)) (t : TypeId) :
    Agree (ofContent l parts t) (ofContent l' parts t) := by
  refine read (fun _ _ => rfl) (fun _ _ => rfl) fun s => ?_
  dsimp only
  split
  · exact ofParts _ parts
  · exact display t fun text => faulty l l' _ _

theorem ofArguments (name : String) (arity : Nat) (types : List TypeId) :
    Agree (ofArguments l name arity types) (ofArguments l' name arity types) := by
  unfold Resolving.ofArguments
  split
  · exact making _
  · exact faulty l l' _ _

end Makings

theorem resolveStep (ih : OnSame resolve) : OnSame (resolveStep registry resolve) := by
  intro a b h
  cases b with
  | named l name =>
    obtain ⟨k, rfl⟩ := eq_named_of_same h
    exact resolveName registry k l name
  | generic l name arguments =>
    obtain ⟨k, es, rfl, hes⟩ := eq_generic_of_same h
    rw [Resolving.resolveStep, Resolving.resolveStep]
    split
    · exact resolveNotGeneric registry k l name
    · split
      · exact resolveElement k l hes
      · exact (resolveList ih hes).bind (ofArguments k l name _)
  | union l candidates =>
    obtain ⟨k, es, rfl, hes⟩ := eq_union_of_same h
    exact (resolveList ih hes).bind fun types => making _
  | intersection l candidates =>
    obtain ⟨k, es, rfl, hes⟩ := eq_intersection_of_same h
    exact (resolveList ih hes).bind fun types => making _
  | record l fields =>
    obtain ⟨k, fs, rfl, hfs⟩ := eq_record_of_same h
    exact (resolveParts ih (hfs.imp fun f g => SamePart.field) []).bind (ofParts _)
  | template l parameters result =>
    obtain ⟨k, ps, u, rfl, hps, hu⟩ := eq_template_of_same h
    exact (resolveParts ih (hps.imp fun p q => SamePart.templateParam) []).bind fun parts =>
      (ih _ _ hu).bind (ofContent _ _ parts)
  | function l parameters result =>
    obtain ⟨k, ps, u, rfl, hps, hu⟩ := eq_function_of_same h
    exact (resolveParts ih (hps.imp fun p q => SamePart.functionParam) []).bind fun parts =>
      (ih _ _ hu).bind fun t => ofParts _ parts
  | indexed l base property =>
    obtain ⟨k, e, rfl, he⟩ := eq_indexed_of_same h
    exact (ih _ _ he).bind fun t => indexType registry k l t property
  | literal l value =>
    obtain ⟨k, rfl⟩ := eq_literal_of_same h
    exact resolveLiteral k l value

theorem resolveWithin (registry : Registry) (room : Nat) :
    OnSame (resolveWithin registry room) :=
  resolveWithin_induct registry room (motive := fun _ => OnSame) (fun _ _ _ => faulty _ _ _ _)
    fun _ _ => resolveStep

end Expressions
end Agree

namespace Session
open Resolving
variable {σ : Session} {registry : Registry} {a b : TypeExpr}

/-- Equality up to places is symmetric and transitive. Equal expressions are printed alike, and
resolved behind each other they lead to one type and to complaints that say the same. -/
theorem interchangeable (hσ : σ.Used) (haliases : ∀ entry ∈ registry.aliases, entry.2 ∈ σ.issued)
    (h : same a b) :
    same b a ∧ a.print = b.print ∧
      (∃ t s ds ds', (∀ report, resolve registry a ⟨σ.store, report⟩ = (t, ⟨s, report.extend ds⟩)) ∧
        (∀ report, resolve registry b ⟨s, report⟩ = (t, ⟨s, report.extend ds'⟩)) ∧
        ds.map Diagnostic.said = ds'.map Diagnostic.said) ∧
      ∀ c, same b c → same a c := by
  have hvalid := hσ.valid
  refine ⟨same_symm h, print_eq_of_same h, ?_, fun c hbc => same_of_same (same_symm h) hbc⟩
  obtain ⟨t, s, ds, hrun, -⟩ := Repeats.resolveWithin registry nestingLimit a False σ.store
    (hvalid.serves haliases) hvalid.sound
  have hagain := hrun.again s hrun.sound (.refl s) .empty
  obtain ⟨t', s', es, es', hfirst, hsecond, hsaid⟩ :=
    Agree.resolveWithin registry nestingLimit a b h s
  have heq := hagain.symm.trans (hfirst .empty)
  obtain ⟨rfl, hstate⟩ := Prod.mk.inj heq
  obtain ⟨rfl, hreport⟩ := Resolution.mk.inj hstate
  obtain rfl : ds = es := Report.mk.inj hreport
  exact ⟨t, s, ds, es', hrun.run, hsecond, hsaid⟩

def countRegistry : Registry := ⟨[("Count", .int)], ⟨0, [], []⟩⟩

def totalUnion (start : Nat) : TypeExpr :=
  .union ⟨some "cart.soy", start, start + 11⟩
    [.named ⟨some "cart.soy", start, start + 5⟩ "Count",
      .named ⟨some "cart.soy", start + 6, start + 11⟩ "Total"]

theorem interchangeable_total :
    single.Used ∧ (∀ entry ∈ countRegistry.aliases, entry.2 ∈ single.issued) ∧
      same (totalUnion 4) (totalUnion 30) ∧
      ∃ t s ds ds',
        (∀ report, resolve countRegistry (totalUnion 4) ⟨single.store, report⟩ =
          (t, ⟨s, report.extend ds⟩)) ∧
        (∀ report, resolve countRegistry (totalUnion 30) ⟨s, report⟩ =
          (t, ⟨s, report.extend ds'⟩)) ∧
        ds.map Diagnostic.said = ds'.map Diagnostic.said := by
  have hused : single.Used := reached_single.used
  have haliases : ∀ entry ∈ countRegistry.aliases, entry.2 ∈ single.issued := by decide
  have hsame : same (totalUnion 4) (totalUnion 30) := by
    simp [totalUnion, same, sameAll]
  obtain ⟨-, -, hresolved, -⟩ := interchangeable hused haliases hsame
  exact ⟨hused, haliases, hsame, hresolved⟩

end Session
end TemplateCheck
