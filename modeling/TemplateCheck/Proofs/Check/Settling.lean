import TemplateCheck.Proofs.Check.Echoes

/-! The resolution of types in closed form. Once all types are stored, what it has changed in a tree
can be told from what the nodes declare and from the types that the annotations resolve to. -/

namespace TemplateCheck
open TypeStore Resolving

namespace Resolving
variable {registry : Registry} {s later : TypeStore} {e : Option TypeExpr} {t : TypeId}

def meaning (registry : Registry) (s : TypeStore) (e : Option TypeExpr) : TypeId :=
  (resolveOptional registry e ⟨s, .empty⟩).1

theorem Denotes.meaning_eq (h : Denotes registry s e t) (hlater : later.Sound)
    (hgrows : s.Grows later) : meaning registry later e = t :=
  h later hlater hgrows .empty

def meanings (registry : Registry) (s : TypeStore) (declared : Declared) : List TypeId :=
  declared.map fun p => meaning registry s p.2

theorem meanings_eq {declared : Declared} {types : List TypeId}
    (h : List.Forall₂ (fun p t => Denotes registry s p.2 t) declared types) (hlater : later.Sound)
    (hgrows : s.Grows later) : meanings registry later declared = types := by
  induction h with
  | nil => rfl
  | cons ht _ ih => rw [meanings, List.map_cons, ht.meaning_eq hlater hgrows, ← meanings, ih]

end Resolving

/-- The annotated constant that a node declares. -/
def Tree.constantAt (t : TemplateTree) (n : NodeId) : Declared :=
  match t.declarationOf n with
  | some (.constant name (some e)) => [(name, some e)]
  | _ => []

namespace Checking
variable {α β : Type} {registry : Registry} {t : TemplateTree} {s : TypeStore} {n : NodeId}
  {check : Checking α}

def Settles (t : TemplateTree) (s : TypeStore) (check : Checking α) (result : TypeStore → α)
    (changes : TypeStore → TypeChanges) : Prop :=
  ∃ s' ds, s'.Sound ∧ s.Grows s' ∧ ∀ later : TypeStore, later.Sound → s'.Grows later →
    ∀ report, check ⟨t, s, report⟩ =
      (.ok (result later), ⟨t.withTypes (changes later), s', report.extend ds⟩)

namespace Settles
variable {result : TypeStore → α} {changes : TypeStore → TypeChanges}

theorem ret (hs : s.Sound) (a : α) : Settles t s (pure a) (fun _ => a) fun _ => [] :=
  ⟨s, [], hs, .refl s, fun _ _ _ report => by rw [report.extend_nil]; rfl⟩

theorem of_resolves {m : Resolving β} {post : Prop → TypeStore → β → Prop} {result' : β → α}
    {changes' : β → TypeChanges} (hm : Repeats False m s post)
    (hcheck : Resolves t check m result' changes')
    (hpost : ∀ G s' b, post G s' b → ∀ later : TypeStore, later.Sound → s'.Grows later →
      result' b = result later ∧ changes' b = changes later) :
    Settles t s check result changes := by
  obtain ⟨b, s', ds, hreplays, hb⟩ := hm
  refine ⟨s', ds, hreplays.sound, hreplays.grows, fun later hlater hgrows report => ?_⟩
  obtain ⟨hresult, hchanges⟩ := hpost _ _ _ hb later hlater hgrows
  rw [← hresult, ← hchanges]
  exact hcheck _ _ _ _ _ (hreplays.run report)

theorem congr {other : Checking α} (h : Settles t s other result changes)
    (heq : ∀ report, check ⟨t, s, report⟩ = other ⟨t, s, report⟩) :
    Settles t s check result changes := by
  obtain ⟨s', ds, hs', hgrows, hrun⟩ := h
  exact ⟨s', ds, hs', hgrows, fun later hlater hgrows report =>
    (heq report).trans (hrun later hlater hgrows report)⟩

theorem bind {f : α → Checking β} {g : α → TypeStore → β} {c : α → TypeStore → TypeChanges}
    (hm : Settles t s check result changes)
    (hf : ∀ a changed s', s'.Sound → s.Grows s' →
      Settles (t.withTypes changed) s' (f a) (g a) (c a)) :
    Settles t s (check >>= f) (fun later => g (result later) later)
      fun later => changes later ++ c (result later) later := by
  obtain ⟨s₁, ds, hs₁, hgrows₁, hrun⟩ := hm
  obtain ⟨s₂, ds', hs₂, hgrows₂, hrun'⟩ := hf (result s₁) (changes s₁) s₁ hs₁ hgrows₁
  refine ⟨s₂, ds ++ ds', hs₂, hgrows₁.trans hgrows₂, fun later hlater hgrows report => ?_⟩
  have hfirst := hrun s₁ hs₁ (.refl s₁) report
  have hsame := hfirst.symm.trans (hrun later hlater (hgrows₂.trans hgrows) report)
  have hresult : result s₁ = result later := Except.ok.inj (congrArg Prod.fst hsame)
  have htree : t.withTypes (changes s₁) = t.withTypes (changes later) :=
    congrArg (fun r => r.2.tree) hsame
  rw [run_bind, hfirst]
  dsimp only
  rw [hrun' later hlater hgrows, Report.extend_extend, hresult, htree, Tree.withTypes_append]

theorem query_bind {question : TemplateTree → Except Misuse β} {f : β → Checking α} {b : β}
    (hquestion : question t = .ok b) (h : Settles t s (f b) result changes) :
    Settles t s (Checking.query question >>= f) result changes :=
  h.congr fun _ => run_query_bind f hquestion

end Settles

def constantChanges (registry : Registry) (s : TypeStore) (t : TemplateTree) (n : NodeId) :
    TypeChanges :=
  (t.constantAt n).map fun p => (n, .constant (meaning registry s p.2))

theorem settles_resolveConst (hs : s.Sound) (hserves : registry.Serves False s)
    (hn : t.Allocated n) (scope : Scope) :
    Settles t s (resolveConst registry scope n)
      (fun later => scope.declare (t.constantAt n) (meanings registry later (t.constantAt n)))
      fun later => constantChanges registry later t n := by
  obtain ⟨slot, hslot⟩ := Tree.slot?_eq_some hn
  have hdeclaration : t.declarationOf n = some slot.payload.declaration := by
    rw [Tree.declarationOf, hslot, Option.map_some]
  by_cases hannotated : ∃ name e, slot.payload.declaration = .constant name (some e)
  · obtain ⟨name, e, hd⟩ := hannotated
    obtain ⟨c, hc, rfl, he⟩ := Node.declaration_eq_constant hd
    have hat : t.constantAt n = [(c.name, some e)] := by rw [Tree.constantAt, hdeclaration, hd]
    refine .of_resolves (Repeats.resolveOptional hserves hs (some e))
      (resolves_const registry scope hslot hc he) fun _ s' type htype later hlater hgrows => ?_
    obtain rfl := htype.meaning_eq hlater hgrows
    rw [constantChanges, hat]
    exact ⟨rfl, rfl⟩
  · simp only [not_exists] at hannotated
    have hat : t.constantAt n = [] := by
      rw [Tree.constantAt, hdeclaration]
      split
      · next hd => exact absurd (Option.some.inj hd) (hannotated _ _)
      · rfl
    simp only [constantChanges, hat]
    exact (Settles.ret hs scope).congr fun report => run_resolveConst_other hslot hannotated

def changesBelow (registry : Registry) (scope : Scope) (s : TypeStore) (t : TemplateTree)
    (n : NodeId) : TypeChanges :=
  match t.declarationOf n with
  | some (.template parameters) =>
    templateChanges t n scope parameters (meanings registry s parameters)
  | _ => []

theorem settles_resolveTemplate (hs : s.Sound) (hserves : registry.Serves False s)
    (hn : t.Allocated n) (scope : Scope) :
    Settles t s (resolveTemplate registry scope n) (fun _ => ())
      fun later => changesBelow registry scope later t n := by
  obtain ⟨slot, hslot⟩ := Tree.slot?_eq_some hn
  have hdeclaration : t.declarationOf n = some slot.payload.declaration := by
    rw [Tree.declarationOf, hslot, Option.map_some]
  by_cases htemplate : ∃ parameters, slot.payload.declaration = .template parameters
  · obtain ⟨parameters, hd⟩ := htemplate
    obtain ⟨name, params, hpayload, rfl⟩ := Node.declaration_eq_template hd
    refine .of_resolves (Repeats.resolveEach hserves hs _)
      (resolves_template registry scope hslot hpayload)
      fun _ s' types htypes later hlater hgrows => ⟨rfl, ?_⟩
    rw [changesBelow, hdeclaration, hd, ← meanings_eq htypes hlater hgrows]
  · simp only [not_exists] at htemplate
    have hnone (later : TypeStore) : changesBelow registry scope later t n = [] := by
      rw [changesBelow, hdeclaration]
      split
      · next hd => exact absurd (Option.some.inj hd) (htemplate _)
      · rfl
    simp only [hnone]
    exact (Settles.ret hs ()).congr fun report => run_resolveTemplate_other hslot htemplate

section Lists
variable {changed : TypeChanges}

theorem constantAt_withTypes : (t.withTypes changed).constantAt = t.constantAt := by
  funext n
  rw [Tree.constantAt, Tree.declarationOf_withTypes, Tree.constantAt]

theorem constantChanges_withTypes :
    constantChanges registry s (t.withTypes changed) = constantChanges registry s t := by
  funext n
  rw [constantChanges, constantAt_withTypes, constantChanges]

theorem changesBelow_withTypes {scope : Scope} :
    changesBelow registry scope s (t.withTypes changed) = changesBelow registry scope s t := by
  funext n
  simp only [changesBelow, Tree.declarationOf_withTypes, templateChanges, Tree.preorder_withTypes]

theorem allocated_withTypes : (t.withTypes changed).Allocated n ↔ t.Allocated n := by
  rw [Tree.Allocated, Tree.size_withTypes, Tree.Allocated]

theorem declare_append (scope : Scope) (first rest : Declared) :
    scope.declare (first ++ rest) (meanings registry s (first ++ rest)) =
      (scope.declare first (meanings registry s first)).declare rest
        (meanings registry s rest) := by
  induction first generalizing scope with
  | nil => rfl
  | cons p first ih => exact ih _

theorem settles_resolveConsts (hs : s.Sound) (hserves : registry.Serves False s)
    {nodes : List NodeId} (hnodes : ∀ n ∈ nodes, t.Allocated n) (scope : Scope) :
    Settles t s (nodes.foldlM (resolveConst registry) scope)
      (fun later => scope.declare (nodes.flatMap t.constantAt)
        (meanings registry later (nodes.flatMap t.constantAt)))
      fun later => nodes.flatMap (constantChanges registry later t) := by
  induction nodes generalizing t s scope with
  | nil => exact .ret hs scope
  | cons n rest ih =>
    obtain ⟨hn, hrest⟩ := List.forall_mem_cons.1 hnodes
    simp only [List.flatMap_cons, declare_append]
    refine (settles_resolveConst hs hserves hn scope).bind
      (g := fun scope later => scope.declare (rest.flatMap t.constantAt)
        (meanings registry later (rest.flatMap t.constantAt)))
      (c := fun _ later => rest.flatMap (constantChanges registry later t))
      fun scope changed s' hs' hgrows => ?_
    have hlater := ih hs' (hserves.later id hs hgrows)
      (fun m hm => allocated_withTypes.2 (hrest m hm)) scope (t := t.withTypes changed)
    simp only [constantAt_withTypes, constantChanges_withTypes] at hlater
    exact hlater

theorem settles_resolveTemplates (hs : s.Sound) (hserves : registry.Serves False s)
    {nodes : List NodeId} (hnodes : ∀ n ∈ nodes, t.Allocated n) (scope : Scope) :
    Settles t s (nodes.forM (resolveTemplate registry scope)) (fun _ => ())
      fun later => nodes.flatMap (changesBelow registry scope later t) := by
  induction nodes generalizing t s with
  | nil => exact .ret hs ()
  | cons n rest ih =>
    obtain ⟨hn, hrest⟩ := List.forall_mem_cons.1 hnodes
    refine (settles_resolveTemplate hs hserves hn scope).bind (g := fun _ _ => ())
      (c := fun _ later => rest.flatMap (changesBelow registry scope later t))
      fun _ changed s' hs' hgrows => ?_
    have hlater := ih hs' (hserves.later id hs hgrows)
      (fun m hm => allocated_withTypes.2 (hrest m hm)) (t := t.withTypes changed)
    simp only [changesBelow_withTypes] at hlater
    exact hlater

end Lists

end Checking
end TemplateCheck
