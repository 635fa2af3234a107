import TemplateCheck.Proofs.Check.Outlines
import TemplateCheck.Proofs.Check.Steps
import TemplateCheck.Proofs.Resolve.Repeating

/-! Resolving types in a tree, and in another one with the same declarations at corresponding nodes.
Both come to the same types and the same complaints; what comes second finds all types stored. -/

namespace TemplateCheck
open TypeStore

namespace Resolving
variable {registry : Registry} {s s' : TypeStore} {e : Option TypeExpr} {t u : TypeId}

def Denotes (registry : Registry) (s : TypeStore) (e : Option TypeExpr) (t : TypeId) : Prop :=
  ∀ later : TypeStore, later.Sound → s.Grows later → ∀ report,
    (resolveOptional registry e ⟨later, report⟩).1 = t

theorem Denotes.grows (h : Denotes registry s e t) (hgrows : s.Grows s') :
    Denotes registry s' e t :=
  fun later hlater hgrows' => h later hlater (hgrows.trans hgrows')

theorem Denotes.unique (ht : Denotes registry s e t) (hu : Denotes registry s e u)
    (hs : s.Sound) : t = u :=
  (ht s hs (.refl s) .empty).symm.trans (hu s hs (.refl s) .empty)

end Resolving

open Resolving

namespace Repeats
variable {registry : Registry} {G : Prop} {s : TypeStore}

theorem resolveOptional (h : registry.Serves G s) (hs : s.Sound) (e : Option TypeExpr) :
    Repeats G (resolveOptional registry e) s fun _ s' t => Denotes registry s' e t := by
  cases e with
  | none => exact ret hs fun later hlater hgrows report => rfl
  | some e =>
    obtain ⟨t, s', ds, hreplays, -⟩ := resolveWithin registry TypeExpr.nestingLimit e G s h hs
    refine ⟨t, s', ds, hreplays, fun later hlater hgrows report => ?_⟩
    exact congrArg Prod.fst (hreplays.again later hlater hgrows report)

theorem resolveEach (h : registry.Serves G s) (hs : s.Sound) (parameters : Declared) :
    Repeats G (resolveEach registry parameters) s fun _ s' types =>
      List.Forall₂ (fun p t => Denotes registry s' p.2 t) parameters types := by
  induction parameters generalizing G s with
  | nil => exact ret hs .nil
  | cons p rest ih =>
    refine (resolveOptional h hs p.2).bind fun t s₁ G₁ hG₁ hs₁ hgrows₁ ht => ?_
    refine (ih (h.later hG₁ hs hgrows₁) hs₁).bind fun types s₂ G₂ hG₂ hs₂ hgrows₂ htypes => ?_
    exact ret hs₂ (.cons (ht.grows hgrows₂) htypes)

end Repeats

def Tree.declarationOf (t : TemplateTree) (n : NodeId) : Option Declaration :=
  (t.slot? n).map (·.payload.declaration)

theorem Tree.declarationOf_withTypes {t : TemplateTree} {changes : TypeChanges} {n : NodeId} :
    (t.withTypes changes).declarationOf n = t.declarationOf n := by
  rw [declarationOf, slot?_withTypes, Option.map_map, declarationOf]
  refine congrArg (Option.map · (t.slot? n)) (funext fun slot => ?_)
  exact TypeChange.declaration_applyAll _ _

namespace TypeChange
variable {registry : Registry} {s s' : TypeStore} {change other : TypeChange}
  {d : Option Declaration}

def Right (registry : Registry) (s : TypeStore) : TypeChange → Option Declaration → Prop
  | constant t, some (.constant _ e) => Denotes registry s e t
  | parameters types, some (.template declared) =>
    List.Forall₂ (fun p t => Denotes registry s p.2 t) declared types
  | assign _, _ => True
  | _, _ => False

theorem Right.grows (h : change.Right registry s d) (hgrows : s.Grows s') :
    change.Right registry s' d := by
  unfold Right at h ⊢
  split at h
  · exact Denotes.grows h hgrows
  · exact h.imp fun _ _ ht => ht.grows hgrows
  · trivial
  · exact h.elim

theorem Right.agrees (h : change.Right registry s d) (hother : other.Right registry s d)
    (hs : s.Sound) : change.Agrees other := by
  match change, other, d with
  | constant _, constant _, some (.constant ..) => exact Denotes.unique h hother hs
  | parameters _, parameters _, some (.template _) =>
    exact List.right_unique_forall₂' (fun _ _ _ ht hu => ht.unique hu hs) h hother
  | assign _, _, _ => trivial
  | constant _, assign _, _ | constant _, parameters _, _ => trivial
  | parameters _, assign _, _ | parameters _, constant _, _ => trivial

end TypeChange

def SameChange (M : NodeId → NodeId → Prop) (c c' : NodeId × TypeChange) : Prop :=
  M c.1 c'.1 ∧ c.2 = c'.2

section Echoes
variable {α β : Type} (registry : Registry) (complete : Prop) (M : NodeId → NodeId → Prop)

/-- One check works on `t` and one on `u`. In the store `s` both come to `x`, report `ds` and leave
the store `s'`. In whatever `s'` grows to, the second does the same and stores nothing. -/
structure Echoed (t u : TemplateTree) (s : TypeStore) (check check' : Checking α)
    (x : Except Misuse α) (changes changes' : TypeChanges) (s' : TypeStore)
    (ds : List Diagnostic) : Prop where
  first : ∀ report, check ⟨t, s, report⟩ = (x, ⟨t.withTypes changes, s', report.extend ds⟩)
  second : ∀ report, check' ⟨u, s, report⟩ = (x, ⟨u.withTypes changes', s', report.extend ds⟩)
  again : ∀ later : TypeStore, later.Sound → s'.Grows later → ∀ report,
    check' ⟨u, later, report⟩ = (x, ⟨u.withTypes changes', later, report.extend ds⟩)
  sound : s'.Sound
  grows : s.Grows s'
  same : List.Forall₂ (SameChange M) changes changes'
  right : ∀ c ∈ changes, c.2.Right registry s' (t.declarationOf c.1)
  succeeds : complete → ∃ a, x = .ok a

def EchoesAt (t u : TemplateTree) (s : TypeStore) (check check' : Checking α) : Prop :=
  ∃ x changes changes' s' ds, Echoed registry complete M t u s check check' x changes changes' s' ds

def Echoes (check check' : Checking α) : Prop :=
  ∀ t u s, Outlines complete M t u → s.Sound → registry.Serves False s →
    EchoesAt registry complete M t u s check check'

end Echoes

theorem Echoed.eq {α : Type} {registry : Registry} {complete : Prop} {M M' : NodeId → NodeId → Prop}
    {t u u' : TemplateTree} {s s₁ s₂ : TypeStore} {check check₁ check₂ : Checking α}
    {x y : Except Misuse α} {changes changes₁ more more₁ : TypeChanges} {ds ds' : List Diagnostic}
    (h : Echoed registry complete M t u s check check₁ x changes changes₁ s₁ ds)
    (h' : Echoed registry complete M' t u' s check check₂ y more more₁ s₂ ds') :
    x = y ∧ t.withTypes changes = t.withTypes more ∧ s₁ = s₂ ∧ ds = ds' := by
  have hrun : (x, CheckState.mk (t.withTypes changes) s₁ (Report.empty.extend ds)) =
      (y, CheckState.mk (t.withTypes more) s₂ (Report.empty.extend ds')) :=
    (h.first .empty).symm.trans (h'.first .empty)
  simpa only [Prod.mk.injEq, CheckState.mk.injEq, Report.extend, Report.mk.injEq, Report.empty,
    List.nil_append] using hrun

section Rules
variable {α β γ δ : Type} {registry : Registry} {complete : Prop} {M : NodeId → NodeId → Prop}
  {t u : TemplateTree} {s : TypeStore} {check check' : Checking α}

namespace EchoesAt

theorem of_resolves {m : Resolving β} {post : Prop → TypeStore → β → Prop} {result : β → α}
    {changes changes' : β → TypeChanges} (hm : Repeats False m s post)
    (hfirst : Checking.Resolves t check m result changes)
    (hsecond : Checking.Resolves u check' m result changes')
    (hsame : ∀ b, List.Forall₂ (SameChange M) (changes b) (changes' b))
    (hright : ∀ G s' b, post G s' b → ∀ c ∈ changes b,
      c.2.Right registry s' (t.declarationOf c.1)) :
    EchoesAt registry complete M t u s check check' := by
  obtain ⟨b, s', ds, hreplays, hpost⟩ := hm
  exact ⟨.ok (result b), changes b, changes' b, s', ds,
    { first := fun report => hfirst _ _ _ _ _ (hreplays.run report)
      second := fun report => hsecond _ _ _ _ _ (hreplays.run report)
      again := fun later hlater hgrows report =>
        hsecond _ _ _ _ _ (hreplays.again later hlater hgrows report)
      sound := hreplays.sound
      grows := hreplays.grows
      same := hsame b
      right := hright _ _ _ hpost
      succeeds := fun _ => ⟨_, rfl⟩ }⟩

theorem unchanged {x : Except Misuse α} (hs : s.Sound)
    (hfirst : ∀ s report, check ⟨t, s, report⟩ = (x, ⟨t, s, report⟩))
    (hsecond : ∀ s report, check' ⟨u, s, report⟩ = (x, ⟨u, s, report⟩))
    (hsucceeds : complete → ∃ a, x = .ok a) :
    EchoesAt registry complete M t u s check check' := by
  refine ⟨x, [], [], s, [], ⟨fun report => ?_, fun report => ?_, fun later _ _ report => ?_, hs,
    .refl s, .nil, List.forall_mem_nil _, hsucceeds⟩⟩
  · rw [report.extend_nil]
    exact hfirst s report
  · rw [report.extend_nil]
    exact hsecond s report
  · rw [report.extend_nil]
    exact hsecond later report

theorem foreign {n : NodeId} {f f' : Node → Checking α} (hs : s.Sound) (hcomplete : ¬complete)
    (hslot : t.slot? n = none) (hslot' : u.slot? n = none) :
    EchoesAt registry complete M t u s (Checking.query (·.payload n) >>= f)
      (Checking.query (·.payload n) >>= f') := by
  refine .unchanged (x := .error (.foreign n)) hs (fun s report => ?_) (fun s report => ?_)
    (absurd · hcomplete)
  · rw [run_bind, Checking.query_payload_foreign hslot]
  · rw [run_bind, Checking.query_payload_foreign hslot']

theorem congr {other other' : Checking α} (h : EchoesAt registry complete M t u s other other')
    (hfirst : ∀ s report, check ⟨t, s, report⟩ = other ⟨t, s, report⟩)
    (hsecond : ∀ s report, check' ⟨u, s, report⟩ = other' ⟨u, s, report⟩) :
    EchoesAt registry complete M t u s check check' := by
  obtain ⟨x, changes, changes', s', ds, h⟩ := h
  exact ⟨x, changes, changes', s', ds,
    { h with
      first := fun report => (hfirst s report).trans (h.first report)
      second := fun report => (hsecond s report).trans (h.second report)
      again := fun later hlater hgrows report =>
        (hsecond later report).trans (h.again later hlater hgrows report) }⟩

theorem bind {f f' : α → Checking β} (hm : EchoesAt registry complete M t u s check check')
    (hout : Outlines complete M t u) (hs : s.Sound) (hserves : registry.Serves False s)
    (hf : ∀ a, Echoes registry complete M (f a) (f' a)) :
    EchoesAt registry complete M t u s (check >>= f) (check' >>= f') := by
  obtain ⟨x, changes, changes', s₁, ds, h⟩ := hm
  cases x with
  | error misuse =>
    refine ⟨.error misuse, changes, changes', s₁, ds, ⟨fun report => ?_, fun report => ?_,
      fun later hlater hgrows report => ?_, h.sound, h.grows, h.same, h.right,
      fun hcomplete => ?_⟩⟩
    · rw [run_bind, h.first]
    · rw [run_bind, h.second]
    · rw [run_bind, h.again later hlater hgrows]
    · obtain ⟨a, ha⟩ := h.succeeds hcomplete
      cases ha
  | ok a =>
    obtain ⟨y, more, more', s₂, ds', h'⟩ := hf a _ _ s₁ (hout.withTypes changes changes') h.sound
      (hserves.later id hs h.grows)
    refine ⟨y, changes ++ more, changes' ++ more', s₂, ds ++ ds', ⟨fun report => ?_,
      fun report => ?_, fun later hlater hgrows report => ?_, h'.sound, h.grows.trans h'.grows,
      List.rel_append h.same h'.same, List.forall_mem_append.2 ⟨fun c hc => ?_, fun c hc => ?_⟩,
      h'.succeeds⟩⟩
    · rw [run_bind, h.first]
      dsimp only
      rw [h'.first, Tree.withTypes_append, Report.extend_extend]
    · rw [run_bind, h.second]
      dsimp only
      rw [h'.second, Tree.withTypes_append, Report.extend_extend]
    · rw [run_bind, h.again later hlater (h'.grows.trans hgrows)]
      dsimp only
      rw [h'.again later hlater hgrows, Tree.withTypes_append, Report.extend_extend]
    · exact (h.right c hc).grows h'.grows
    · have hright := h'.right c hc
      rwa [Tree.declarationOf_withTypes] at hright

end EchoesAt

namespace Echoes

theorem ret (a : α) : Echoes registry complete M (pure a : Checking α) (pure a) :=
  fun _ _ _ _ hs _ => .unchanged (x := .ok a) hs (fun _ _ => rfl) (fun _ _ => rfl)
    fun _ => ⟨a, rfl⟩

theorem bind {f f' : α → Checking β} (hm : Echoes registry complete M check check')
    (hf : ∀ a, Echoes registry complete M (f a) (f' a)) :
    Echoes registry complete M (check >>= f) (check' >>= f') :=
  fun t u s hout hs hserves => (hm t u s hout hs hserves).bind hout hs hserves hf

theorem query_bind {R : γ → δ → Prop} {question : TemplateTree → Except Misuse γ}
    {question' : TemplateTree → Except Misuse δ} {f : γ → Checking β} {f' : δ → Checking β}
    (hquestion : ∀ t u, Outlines complete M t u → Answers complete R (question t) (question' u))
    (hf : ∀ a a', R a a' → Echoes registry complete M (f a) (f' a')) :
    Echoes registry complete M (Checking.query question >>= f)
      (Checking.query question' >>= f') := by
  intro t u s hout hs hserves
  have hanswers := hquestion t u hout
  generalize hfirst : question t = x at hanswers
  generalize hsecond : question' u = x' at hanswers
  cases hanswers with
  | @ok a a' ha =>
    exact (hf a a' ha t u s hout hs hserves).congr
      (fun s report => Checking.run_query_bind f hfirst)
      fun s report => Checking.run_query_bind f' hsecond
  | error misuse hcomplete =>
    exact .unchanged hs (fun s report => Checking.run_query_bind_error f hfirst)
      (fun s report => Checking.run_query_bind_error f' hsecond) (absurd · hcomplete)

theorem forM {f f' : γ → Checking Unit} {R : γ → γ → Prop} {l l' : List γ}
    (hl : List.Forall₂ R l l') (hf : ∀ a a', R a a' → Echoes registry complete M (f a) (f' a')) :
    Echoes registry complete M (l.forM f) (l'.forM f') := by
  induction hl with
  | nil => exact ret ()
  | cons ha _ ih => exact (hf _ _ ha).bind fun _ => ih

theorem foldlM {f f' : β → γ → Checking β} {R : γ → γ → Prop} {l l' : List γ} (b : β)
    (hl : List.Forall₂ R l l')
    (hf : ∀ b a a', R a a' → Echoes registry complete M (f b a) (f' b a')) :
    Echoes registry complete M (l.foldlM f b) (l'.foldlM f' b) := by
  induction hl generalizing b with
  | nil => exact ret b
  | cons ha _ ih =>
    rw [List.foldlM_cons, List.foldlM_cons]
    exact (hf b _ _ ha).bind ih

end Echoes
end Rules

namespace Echoes
open Checking
variable {registry : Registry} {complete : Prop} {M : NodeId → NodeId → Prop} {n n' : NodeId}
  {scope : Scope}

theorem resolveConst (hn : M n n') : Echoes registry complete M (resolveConst registry scope n)
    (Checking.resolveConst registry scope n') := by
  intro t u s hout hs hserves
  cases hout.slots hn with
  | missing hcomplete heq hslot hslot' =>
    subst heq
    exact .foreign hs hcomplete hslot hslot'
  | @there slot slot' hslot hslot' hdeclaration hchildren =>
    by_cases hannotated : ∃ name e, slot.payload.declaration = .constant name (some e)
    · obtain ⟨name, e, hd⟩ := hannotated
      obtain ⟨c, hc, rfl, he⟩ := Node.declaration_eq_constant hd
      obtain ⟨c', hc', hname, he'⟩ := Node.declaration_eq_constant (hdeclaration ▸ hd)
      have hsecond := resolves_const registry scope hslot' hc' he'
      rw [hname] at hsecond
      refine .of_resolves (Repeats.resolveOptional hserves hs (some e))
        (resolves_const registry scope hslot hc he) hsecond (fun t => .cons ⟨hn, rfl⟩ .nil)
        fun _ s' t ht => ?_
      refine List.forall_mem_singleton.2 ?_
      rw [Tree.declarationOf, hslot, Option.map_some, hd]
      exact ht
    · simp only [not_exists] at hannotated
      refine .unchanged (x := .ok scope) hs (fun s report => ?_) (fun s report => ?_)
        fun _ => ⟨scope, rfl⟩
      · exact run_resolveConst_other hslot hannotated
      · exact run_resolveConst_other hslot' (hdeclaration ▸ hannotated)

theorem resolveTemplate (hn : M n n') : Echoes registry complete M
    (resolveTemplate registry scope n) (Checking.resolveTemplate registry scope n') := by
  intro t u s hout hs hserves
  cases hout.slots hn with
  | missing hcomplete heq hslot hslot' =>
    subst heq
    exact .foreign hs hcomplete hslot hslot'
  | @there slot slot' hslot hslot' hdeclaration hchildren =>
    by_cases htemplate : ∃ parameters, slot.payload.declaration = .template parameters
    · obtain ⟨parameters, hd⟩ := htemplate
      obtain ⟨name, params, hpayload, rfl⟩ := Node.declaration_eq_template hd
      obtain ⟨name', params', hpayload', hparams⟩ :=
        Node.declaration_eq_template (hdeclaration ▸ hd)
      have hsecond := resolves_template registry scope hslot' hpayload'
      rw [hparams] at hsecond
      refine .of_resolves (Repeats.resolveEach hserves hs _)
        (resolves_template registry scope hslot hpayload) hsecond
        (fun types => .cons ⟨hn, rfl⟩ ?_) fun _ s' types htypes => ?_
      · refine List.rel_map (fun m m' hm => ?_) (hout.preorder hn)
        exact ⟨hm, rfl⟩
      · refine List.forall_mem_cons.2 ⟨?_, List.forall_mem_map.2 fun _ _ => trivial⟩
        rw [Tree.declarationOf, hslot, Option.map_some, hd]
        exact htypes
    · simp only [not_exists] at htemplate
      refine .unchanged (x := .ok ()) hs (fun s report => ?_) (fun s report => ?_)
        fun _ => ⟨(), rfl⟩
      · exact run_resolveTemplate_other hslot htemplate
      · exact run_resolveTemplate_other hslot' (hdeclaration ▸ htemplate)

theorem resolveTypes (hn : M n n') : Echoes registry complete M (resolveTypes registry n)
    (Checking.resolveTypes registry n') := by
  have hofKind (kind : NodeKind) (t u : TemplateTree) (hout : Outlines complete M t u) :
      Answers complete (List.Forall₂ M) (TemplateTree.ofKind t n kind)
        (TemplateTree.ofKind u n' kind) :=
    hout.ofKind hn kind
  refine query_bind (hofKind .const) fun consts consts' hconsts => ?_
  have hscope : Echoes registry complete M (consts.foldlM (Checking.resolveConst registry) [])
      (consts'.foldlM (Checking.resolveConst registry) []) :=
    foldlM [] hconsts fun scope c c' hc => resolveConst hc
  refine hscope.bind fun scope => ?_
  refine query_bind (hofKind .template) fun templates templates' htemplates => ?_
  exact forM htemplates fun _ _ ht => resolveTemplate ht

end Echoes
end TemplateCheck
