import TemplateCheck.Check.Run
import TemplateCheck.Proofs.Check.Echoes
import TemplateCheck.Proofs.Resolve.Tagging
import TemplateCheck.Proofs.Tree.Workspace
import TemplateCheck.Proofs.Types.Session

/-! Checking the same files once more. The first run has made all changes and stored all types, so
the second comes to the same diagnostics and has no other effect. -/

namespace TemplateCheck

namespace Checking
variable {α β : Type} {registry : Registry} {t t' : TemplateTree} {s s' : TypeStore}
  {check : Checking α}

def OnlyReports (check : Checking α) : Prop :=
  ∀ s, (check s).2.tree = s.tree ∧ (check s).2.store = s.store

namespace OnlyReports

theorem ret (a : α) : OnlyReports (pure a : Checking α) := fun _ => ⟨rfl, rfl⟩

theorem bind {f : α → Checking β} (h : OnlyReports check) (hf : ∀ a, OnlyReports (f a)) :
    OnlyReports (check >>= f) := by
  intro s
  have hcheck := h s
  rw [run_bind]
  generalize check s = r at hcheck ⊢
  rcases r with ⟨misuse | a, s'⟩
  · exact hcheck
  · obtain ⟨htree, hstore⟩ := hf a s'
    exact ⟨htree.trans hcheck.1, hstore.trans hcheck.2⟩

theorem query (question : TemplateTree → Except Misuse α) : OnlyReports (query question) := by
  intro s
  rw [run_query]
  exact ⟨rfl, rfl⟩

theorem report (f : CheckState → Report) :
    OnlyReports (modifyThe CheckState fun s => { s with report := f s }) := fun _ => ⟨rfl, rfl⟩

theorem complainAt (n : NodeId) (message : Message) (arguments : List String) :
    OnlyReports (complainAt n message arguments) :=
  (query _).bind fun location => report fun s => s.report.error location message arguments

theorem forM {f : β → Checking Unit} (h : ∀ b, OnlyReports (f b)) (l : List β) :
    OnlyReports (l.forM f) := by
  induction l with
  | nil => exact ret ()
  | cons b rest ih => exact (h b).bind fun _ => ih

theorem openTagAround (n : NodeId) : OnlyReports (openTagAround n) := by
  refine (query _).bind fun parent => ?_
  cases parent with
  | none => exact ret none
  | some parent => exact (query _).bind fun node => ret _

theorem checkPlace (n : NodeId) : OnlyReports (checkPlace n) := by
  refine (openTagAround n).bind fun tag => ?_
  cases tag with
  | none => exact complainAt _ _ _
  | some tag =>
    refine (query _).bind fun pairs => ?_
    split
    · exact ret ()
    · refine (query _).bind fun back => ?_
      split
      · exact ret ()
      · exact complainAt _ _ _
    · exact complainAt _ _ _

theorem checkNoKeyAttribute (n : NodeId) : OnlyReports (checkNoKeyAttribute n) := by
  refine (openTagAround n).bind fun tag => ?_
  cases tag with
  | none => exact ret ()
  | some tag =>
    refine (query _).bind fun found => ?_
    cases found with
    | none => exact ret ()
    | some found => exact complainAt _ _ _

theorem checkKeyType (n : NodeId) : OnlyReports (checkKeyType n) := by
  refine (query _).bind fun node => ?_
  split
  · intro s
    rw [run_bind, run_get]
    dsimp only
    split
    · exact ret () s
    · exact complainAt _ _ _ s
  · exact ret ()

theorem checkKeys (file : NodeId) : OnlyReports (checkKeys file) :=
  (query _).bind fun keys => forM (fun n =>
    (checkPlace n).bind fun _ => (checkNoKeyAttribute n).bind fun _ => checkKeyType n) keys

theorem checkDuplicates (exempt : List String) (files : List NodeId) :
    OnlyReports (checkDuplicates exempt files) := by
  refine (query _).bind fun entries => forM (fun file => ?_) entries
  dsimp only
  split
  · exact ret ()
  · exact (query _).bind fun location => report _

theorem checkCollisions (files : List NodeId) : OnlyReports (checkCollisions files) := by
  refine (query _).bind fun entries => (query _).bind fun templates => forM (fun pair => ?_) _
  dsimp only
  split
  · exact complainAt _ _ _
  · exact ret ()

theorem checkNamespaces (exempt : List String) (files : List NodeId) :
    OnlyReports (checkNamespaces exempt files) :=
  (checkDuplicates exempt files).bind fun _ => checkCollisions files

end OnlyReports

theorem exists_resolveTypes_again (hs : s.Sound) (hserves : registry.Serves False s)
    (files : List NodeId) (t : TemplateTree) :
    ∃ x t' s' ds,
      (∀ report, files.forM (resolveTypes registry) ⟨t, s, report⟩ =
        (x, ⟨t', s', report.extend ds⟩)) ∧
      ∀ report, files.forM (resolveTypes registry) ⟨t', s', report⟩ =
        (x, ⟨t', s', report.extend ds⟩) := by
  have hechoes : Echoes registry False Eq (files.forM (resolveTypes registry))
      (files.forM (resolveTypes registry)) :=
    .forM (List.forall₂_eq_eq_eq ▸ rfl) fun f f' hf => .resolveTypes hf
  obtain ⟨x, changes, _, s', ds, h⟩ := hechoes t t s (.refl t) hs hserves
  have hout : Outlines False Eq t (t.withTypes changes) := (Outlines.refl t).withTypes [] changes
  obtain ⟨x₂, changes₂, changes₂', s₂, ds₂, h₂⟩ := hechoes t _ s hout hs hserves
  obtain ⟨rfl, htree, rfl, rfl⟩ := h.eq h₂
  have hchanges : changes₂ = changes₂' := by
    rw [← List.forall₂_eq_eq_eq]
    exact h₂.same.imp fun c c' hc => Prod.ext hc.1 hc.2
  -- A file that is mentioned twice gets the types of its declarations twice, and the same ones.
  have hagrees : ∀ c ∈ changes₂, ∀ d ∈ changes₂, c.1 = d.1 → c.2.Agrees d.2 := by
    intro c hc d hd hcd
    have hright := h₂.right d hd
    rw [← hcd] at hright
    exact (h₂.right c hc).agrees hright h₂.sound
  refine ⟨x, _, s', ds, h.first, fun report => ?_⟩
  rw [h₂.again s' h₂.sound (.refl s'), htree, ← hchanges, Tree.withTypes_again hagrees]

end Checking

namespace Session
open Checking
variable {σ : Session} {registry : Registry}

theorem run_standard (files : List NodeId) :
    run registry .standard files = (do
      files.forM (resolveTypes registry)
      files.forM checkKeys
      checkNamespaces [] files) := by
  rw [run, CheckPlan.standard]
  simp only [List.forM, bind_assoc, bind_pure_unit]
  rfl

theorem checkFiles_state (files : List NodeId) (t : TemplateTree) (s : TypeStore) :
    (checkFiles registry files t s).2 =
      ((run registry .standard files ⟨t, s, .empty⟩).2.tree,
        (run registry .standard files ⟨t, s, .empty⟩).2.store) := by
  rw [checkFiles]
  rcases run registry .standard files ⟨t, s, .empty⟩ with ⟨misuse | _, r⟩ <;> rfl

theorem serves_of_issued (hσ : σ.Reached)
    (haliases : ∀ entry ∈ registry.aliases, entry.2 ∈ σ.issued) :
    registry.Serves False σ.store :=
  hσ.valid.serves haliases

/-- A second run of the checks behind a first one comes to the same and changes nothing. -/
theorem checkFiles_again (hσ : σ.Reached)
    (haliases : ∀ entry ∈ registry.aliases, entry.2 ∈ σ.issued) (files : List NodeId)
    (tree : TemplateTree) :
    checkFiles registry files (checkFiles registry files tree σ.store).2.1
        (checkFiles registry files tree σ.store).2.2 =
      checkFiles registry files tree σ.store := by
  obtain ⟨x, t, s, ds, hfirst, hagain⟩ :=
    exists_resolveTypes_again hσ.valid.sound (serves_of_issued hσ haliases) files tree
  have hsame : run registry .standard files ⟨t, s, .empty⟩ =
      run registry .standard files ⟨tree, σ.store, .empty⟩ := by
    rw [run_standard, run_bind, run_bind, hfirst, hagain]
  have hstate : (checkFiles registry files tree σ.store).2 = (t, s) := by
    rw [checkFiles_state, run_standard, run_bind, hfirst]
    cases x with
    | error misuse => rfl
    | ok _ =>
      have hreports : OnlyReports (do files.forM checkKeys; checkNamespaces [] files) :=
        (OnlyReports.forM OnlyReports.checkKeys files).bind fun _ =>
          OnlyReports.checkNamespaces [] files
      obtain ⟨htree, hstore⟩ := hreports ⟨t, s, Report.empty.extend ds⟩
      exact Prod.ext htree hstore
  rw [hstate, checkFiles, hsame, checkFiles]

def cartFile : List (Operation Node) :=
  [.add .unknown (.file "cart.soy" "shop"),
    .add .unknown (.const ⟨"id", .null, false, some (.named .unknown "Missing"), none⟩),
    .add .unknown (.template ".cart"
      [⟨"id", some (.generic .unknown "list" [.named .unknown "Id"]), true, none⟩]),
    .add .unknown (.openTag ⟨"li", false, [⟨5⟩]⟩), .add .unknown (.key (.var "id" none)),
    .add .unknown (.closeTag ⟨"li", false, [⟨3⟩]⟩), .addChildren ⟨0⟩ [⟨1⟩, ⟨2⟩],
    .addChildren ⟨2⟩ [⟨3⟩, ⟨5⟩], .addChild ⟨3⟩ ⟨4⟩]

def cart : TemplateTree := (Workspace.run cartFile).tree

def idRegistry : Registry := ⟨[("Id", .int)], ⟨0, [], []⟩⟩

theorem checkFiles_again_cart :
    single.Reached ∧ (∀ entry ∈ idRegistry.aliases, entry.2 ∈ single.issued) ∧
      checkFiles idRegistry [⟨0⟩, ⟨0⟩]
          (checkFiles idRegistry [⟨0⟩, ⟨0⟩] cart single.store).2.1
          (checkFiles idRegistry [⟨0⟩, ⟨0⟩] cart single.store).2.2 =
        checkFiles idRegistry [⟨0⟩, ⟨0⟩] cart single.store := by
  have hreached : single.Reached := ⟨_, .refl⟩
  have haliases : ∀ entry ∈ idRegistry.aliases, entry.2 ∈ single.issued := by decide
  exact ⟨hreached, haliases, checkFiles_again hreached haliases [⟨0⟩, ⟨0⟩] cart⟩

/-- The annotation and the type of the key are complained about for each mention of the file. -/
example : (checkFiles idRegistry [⟨0⟩, ⟨0⟩] cart single.store).1.toOption.map
    (·.map (·.code)) = some [1002, 1002, 2003, 2003] := by decide +kernel

end Session
end TemplateCheck
