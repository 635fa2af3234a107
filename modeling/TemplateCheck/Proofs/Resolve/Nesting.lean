import TemplateCheck.Proofs.Resolve.Interchanging
import TemplateCheck.Proofs.TypeExpr.Reprinting
import TemplateCheck.Proofs.TypeExpr.Subexpressions

/-! When a resolution complains that an expression nests too deep: exactly if more expressions than
the limit allows lie on a path through it. Unions, intersections and property accesses count on
such a path, but not in the nesting of a text. -/

namespace TemplateCheck
open TypeExpr

namespace TypeExpr

def resolvedParts : TypeExpr → List TypeExpr
  | generic _ name arguments =>
    if (Registry.arity? name).isSome && name != "html" then arguments else []
  | e => e.parts

/-- Expressions from `e` on, each a resolved part of the one before it. -/
inductive ResolvedPath : TypeExpr → List TypeExpr → Prop where
  | stop (e : TypeExpr) : ResolvedPath e [e]
  | step {e p : TypeExpr} {path : List TypeExpr} (hp : p ∈ e.resolvedParts)
      (h : ResolvedPath p path) : ResolvedPath e (e :: path)

/-- A path through the expression is longer than `room`. -/
def Exceeds (room : Nat) (e : TypeExpr) : Prop :=
  ∃ path, ResolvedPath e path ∧ room < path.length

theorem exceeds_zero (e : TypeExpr) : Exceeds 0 e := ⟨[e], .stop e, Nat.zero_lt_one⟩

theorem exceeds_succ {room : Nat} {e : TypeExpr} :
    Exceeds (room + 1) e ↔ ∃ p ∈ e.resolvedParts, Exceeds room p := by
  constructor
  · rintro ⟨path, hpath, hlength⟩
    cases hpath with
    | stop => simp at hlength
    | step hp h => exact ⟨_, hp, _, h, Nat.lt_of_succ_lt_succ hlength⟩
  · rintro ⟨p, hp, path, hpath, hlength⟩
    exact ⟨_, .step hp hpath, Nat.succ_lt_succ hlength⟩

end TypeExpr

def Overflows {α : Type} (m : Resolving α) (P : Prop) : Prop :=
  ∀ s, ∃ a s' ds, (∀ report, m ⟨s, report⟩ = (a, ⟨s', report.extend ds⟩)) ∧
    (Message.typeTooDeep.code ∈ ds.map (·.code) ↔ P)

namespace Overflows
open Resolving

section Steps
variable {α β : Type} {m : Resolving α} {f : α → Resolving β} {P Q : Prop}

theorem congr (hm : Overflows m P) (h : P ↔ Q) : Overflows m Q := propext h ▸ hm

theorem ret (a : α) : Overflows (pure a) False := by
  refine fun s => ⟨a, s, [], fun report => ?_, by simp⟩
  rw [report.extend_nil]
  rfl

theorem bind (hm : Overflows m P) (hf : ∀ a, Overflows (f a) Q) : Overflows (m >>= f) (P ∨ Q) := by
  intro s
  obtain ⟨a, s₁, ds, hrun, hds⟩ := hm s
  obtain ⟨b, s₂, es, hruns, hes⟩ := hf a s₁
  refine ⟨b, s₂, ds ++ es, fun report => ?_, ?_⟩
  · change f (m ⟨s, report⟩).1 (m ⟨s, report⟩).2 = _
    rw [hrun, hruns, Report.extend_extend]
  · rw [List.map_append, List.mem_append, hds, hes]

theorem next (hm : Overflows m False) (hf : ∀ a, Overflows (f a) Q) : Overflows (m >>= f) Q :=
  (hm.bind hf).congr (iff_of_eq (false_or Q))

theorem last (hm : Overflows m P) (hf : ∀ a, Overflows (f a) False) : Overflows (m >>= f) P :=
  (hm.bind hf).congr (iff_of_eq (or_false P))

theorem making (m : Making α) : Overflows (making m) False := by
  refine fun s => ⟨(m s).1, (m s).2, [], fun report => ?_, by simp⟩
  rw [report.extend_nil]
  rfl

theorem complain (l : Location) {message : Message} (arguments : List String)
    (h : message ≠ .typeTooDeep) : Overflows (complain l message arguments) False := by
  refine fun s => ⟨(), s, [.of .error l message arguments], fun _ => rfl, ?_⟩
  have hcode : Message.typeTooDeep.code ≠ message.code := by
    cases message <;> first | exact absurd rfl h | decide
  simpa [Diagnostic.of] using hcode

theorem faulty (l : Location) {message : Message} (arguments : List String)
    (h : message ≠ .typeTooDeep) : Overflows (faulty l message arguments) False :=
  (complain l arguments h).next fun _ => ret TypeId.error

theorem tooDeep (l : Location) : Overflows (tooDeep l) True :=
  fun s => ⟨.error, s, [.of .error l .typeTooDeep [toString nestingLimit]], fun _ => rfl,
    iff_of_true (List.mem_singleton_self _) trivial⟩

theorem read {f : Resolution → Resolving β} (hask : ∀ s report, f ⟨s, report⟩ = f ⟨s, .empty⟩)
    (hf : ∀ s, Overflows (f ⟨s, .empty⟩) Q) : Overflows (get >>= f) Q := by
  intro s
  obtain ⟨a, s', ds, hrun, hds⟩ := hf s s
  refine ⟨a, s', ds, fun report => ?_, hds⟩
  change f ⟨s, report⟩ ⟨s, report⟩ = _
  rw [hask]
  exact hrun report

theorem display {f : String → Resolving β} (t : TypeId) (hf : ∀ text, Overflows (f text) Q) :
    Overflows (display t >>= f) Q :=
  read (f := fun r => f (r.store.display t)) (fun _ _ => rfl) fun _ => hf _

end Steps

section Names
variable (registry : Registry) (l : Location)

theorem indexType (t : TypeId) (property : String) :
    Overflows (indexType registry t property l) False := by
  refine (making _).next fun result => ?_
  cases result with
  | found u => exact ret u
  | missing => exact display t fun text => faulty l _ (by decide)
  | notIndexable => exact display t fun text => faulty l _ (by decide)

theorem indexAll (t : TypeId) (properties : List String) :
    Overflows (indexAll registry l t properties) False := by
  induction properties generalizing t with
  | nil => exact ret t
  | cons property rest ih => exact (indexType registry l t property).next ih

theorem resolveName (name : String) : Overflows (resolveName registry name l) False := by
  refine (making _).next fun found => ?_
  split
  · exact ret _
  · refine (making _).next fun found => ?_
    split
    · exact indexAll registry l _ _
    · split
      · exact faulty l _ (by decide)
      · exact faulty l _ (by decide)

theorem resolveNotGeneric (name : String) :
    Overflows (resolveNotGeneric registry name l) False := by
  refine (making _).next fun found => ?_
  split
  · exact faulty l _ (by decide)
  · exact faulty l _ (by decide)

theorem resolveElement (arguments : List TypeExpr) :
    Overflows (resolveElement l arguments) False := by
  unfold Resolving.resolveElement
  split
  · split
    · exact faulty _ _ (by decide)
    · exact making _
  · exact faulty _ _ (by decide)
  · exact faulty _ _ (by decide)

theorem resolveLiteral (value : Literal) : Overflows (resolveLiteral l value) False := by
  cases value with
  | null => exact ret TypeId.null
  | undefined => exact ret TypeId.undefined
  | string value => exact making (TypeStore.literal value)
  | other text => exact faulty l _ (by decide)

end Names

section Expressions
variable {registry : Registry} {resolve : TypeExpr → Resolving TypeId} {P : TypeExpr → Prop}

theorem resolveList (h : ∀ e, Overflows (resolve e) (P e)) (es : List TypeExpr) :
    Overflows (resolveList resolve es) (∃ e ∈ es, P e) := by
  induction es with
  | nil => exact (ret []).congr (by simp)
  | cons e rest ih =>
    exact ((h e).bind fun t => ih.last fun ts => ret (t :: ts)).congr (by simp)

theorem resolveParts {γ δ : Type} {rule : PartRule γ δ} (h : ∀ e, Overflows (resolve e) (P e))
    (hrepeated : ∀ g, Overflows (rule.repeated g) False) (given : List γ) (seen : List String) :
    Overflows (resolveParts rule resolve seen given) (∃ e ∈ given.map rule.type, P e) := by
  induction given generalizing seen with
  | nil => exact (ret ([], false)).congr (by simp)
  | cons g given ih =>
    refine ((h (rule.type g)).bind (Q := ∃ e ∈ given.map rule.type, P e) fun t => ?_).congr
      (by simp)
    split
    · exact (hrepeated g).next fun _ => (ih seen).last fun _ => ret _
    · exact (ih _).last fun _ => ret _

theorem ofParts {δ : Type} (make : List δ → Making TypeId) (parts : Parts δ) :
    Overflows (ofParts make parts) False := by
  unfold Resolving.ofParts
  split
  · exact ret _
  · exact making _

theorem ofContent (l : Location) (parts : Parts (TemplateParameter TypeId)) (t : TypeId) :
    Overflows (ofContent l parts t) False := by
  refine read (fun _ _ => rfl) fun s => ?_
  dsimp only
  split
  · exact ofParts _ parts
  · exact display t fun text => faulty l _ (by decide)

theorem ofArguments (l : Location) (name : String) (arity : Nat) (types : List TypeId) :
    Overflows (ofArguments l name arity types) False := by
  unfold Resolving.ofArguments
  split
  · exact making _
  · exact faulty l _ (by decide)

theorem resolveStep (ih : ∀ e, Overflows (resolve e) (P e)) (e : TypeExpr) :
    Overflows (resolveStep registry resolve e) (∃ p ∈ e.resolvedParts, P p) := by
  cases e with
  | named l name => exact (resolveName registry l name).congr (by simp [resolvedParts, parts])
  | generic l name arguments =>
    rw [Resolving.resolveStep]
    split
    next harity => exact (resolveNotGeneric registry l name).congr (by simp [resolvedParts, harity])
    next arity harity =>
      split
      next hhtml => exact (resolveElement l arguments).congr (by simp [resolvedParts, hhtml])
      next hhtml =>
        exact ((resolveList ih arguments).last (ofArguments l name arity)).congr
          (by simp [resolvedParts, harity, hhtml])
  | union l candidates => exact (resolveList ih candidates).last fun types => making _
  | intersection l candidates => exact (resolveList ih candidates).last fun types => making _
  | record l fields =>
    have hrepeated (f) : Overflows (fieldRule.repeated f) False := complain _ _ (by decide)
    exact (resolveParts ih hrepeated fields []).last (ofParts _)
  | template l parameters result =>
    have hrepeated (p) : Overflows (templateParamRule.repeated p) False :=
      complain _ _ (by decide)
    refine ((resolveParts ih hrepeated parameters []).bind fun parts =>
      (ih result).last (ofContent _ parts)).congr ?_
    simp [resolvedParts, parts, templateParamRule, or_comm]
  | function l parameters result =>
    have hrepeated (p) : Overflows (functionParamRule.repeated p) False :=
      complain _ _ (by decide)
    refine ((resolveParts ih hrepeated parameters []).bind fun parts =>
      (ih result).last fun t => ofParts _ parts).congr ?_
    simp [resolvedParts, parts, functionParamRule, or_comm]
  | indexed l base property =>
    exact ((ih base).last fun t => indexType registry l t property).congr
      (by simp [resolvedParts, parts])
  | literal l value => exact (resolveLiteral l value).congr (by simp [resolvedParts, parts])

theorem resolveWithin (registry : Registry) (room : Nat) (e : TypeExpr) :
    Overflows (resolveWithin registry room e) (Exceeds room e) := by
  refine resolveWithin_induct registry room
    (motive := fun room resolve => ∀ e, Overflows (resolve e) (Exceeds room e))
    (fun e => ?_) (fun room resolve ih e => ?_) e
  · exact (tooDeep _).congr (iff_of_true trivial (exceeds_zero e))
  · exact (resolveStep ih e).congr exceeds_succ.symm

end Expressions
end Overflows

namespace TypeExpr
variable {d n : Nat} {level : Level} {b : Ending} {ts : List Token} {e m : TypeExpr}
  {path : List TypeExpr}

theorem resolvedParts_subset (e : TypeExpr) : e.resolvedParts ⊆ e.parts := by
  cases e with
  | generic l name arguments =>
    rw [resolvedParts]
    split
    · exact List.Subset.refl _
    · exact List.nil_subset _
  | _ => exact List.Subset.refl _

theorem ResolvedPath.countP_le (h : ResolvedPath e path)
    (hparts : ∀ p ∈ e.parts, ∀ path, ResolvedPath p path → path.countP (!·.isOperation) ≤ n) :
    path.countP (!·.isOperation) ≤ n + (!e.isOperation).toNat := by
  cases h with
  | stop => cases hop : e.isOperation <;> simp [hop]
  | step hp h =>
    have hrest := hparts _ (resolvedParts_subset e hp) _ h
    cases hop : e.isOperation <;> simp [hop, hrest]

theorem Accessed.countP_le {ps : List String} (hm : Accessed e ps m)
    (he : ∀ path, ResolvedPath e path → path.countP (!·.isOperation) ≤ n)
    (h : ResolvedPath m path) : path.countP (!·.isOperation) ≤ n := by
  induction hm with
  | done e => exact he _ h
  | step l _ ih =>
    refine ih (fun path hpath => ?_) h
    exact hpath.countP_le (List.forall_mem_singleton.2 he)

theorem Spells.countP_le (h : Spells d level b ts e) (hpath : ResolvedPath e path) :
    path.countP (!·.isOperation) ≤ d + level.slack := by
  induction h generalizing path with
  | single _ ih => exact ih hpath
  | operand _ ih => exact ih hpath
  | plain _ ih => exact ih hpath
  | parens _ ih => exact Nat.le_succ_of_le (ih hpath)
  | union _ init _ _ _ ihinit ih | intersection _ init _ _ _ ihinit ih =>
    refine hpath.countP_le (List.forall_mem_append.2 ⟨List.forall_mem_map.2 ?_, ?_⟩)
    · exact fun p hp _ => ihinit p hp
    · exact List.forall_mem_singleton.2 fun _ => ih
  | access _ _ _ hm ih => exact hm.countP_le (fun _ => ih) hpath
  | unknown | quoted | number | keyword | named =>
    exact hpath.countP_le (List.forall_mem_nil _)
  | generic _ _ arguments _ ih =>
    exact hpath.countP_le (List.forall_mem_map.2 fun p hp _ => ih p hp)
  | record _ fields _ _ _ ih =>
    refine hpath.countP_le ?_
    rw [parts, List.map_map]
    exact List.forall_mem_map.2 fun p hp _ => ih p hp
  | function _ params _ _ _ _ ih ihresult | template _ params _ _ _ _ ih ihresult =>
    refine hpath.countP_le ?_
    rw [parts, List.map_map]
    refine List.forall_mem_append.2 ⟨List.forall_mem_map.2 fun p hp _ => ih p hp, ?_⟩
    exact List.forall_mem_singleton.2 fun _ => ihresult

end TypeExpr

namespace Resolving
variable {text : String} {file : Option String} {e : TypeExpr}

/-- The resolution of a text that was read complains of too deep nesting exactly if there is a path
of more expressions than the limit allows. Operations lie on such a path, as there are no more
other expressions on it than the limit allows. -/
theorem tooDeep_iff_exceeds (h : parse text file = .ok e) (registry : Registry) (s : TypeStore) :
    (∃ t s' ds, (∀ report, resolve registry e ⟨s, report⟩ = (t, ⟨s', report.extend ds⟩)) ∧
      (Message.typeTooDeep.code ∈ ds.map (·.code) ↔ Exceeds nestingLimit e)) ∧
    ∀ path, ResolvedPath e path → path.countP (!·.isOperation) ≤ nestingLimit :=
  ⟨Overflows.resolveWithin registry nestingLimit e s,
    fun _ hpath => (spells_of_parse h).choose_spec.2.countP_le hpath⟩

theorem tooDeep_iff_exceeds_alternatives : ∃ e, parse (alternativesText 99) none = .ok e ∧
    (∃ t s' ds,
      (∀ report, resolve (.empty ⟨0, [], []⟩) e ⟨.empty fun _ => Fin.last 63, report⟩ =
        (t, ⟨s', report.extend ds⟩)) ∧
      (Message.typeTooDeep.code ∈ ds.map (·.code) ↔ Exceeds nestingLimit e)) ∧
    ∀ path, ResolvedPath e path → path.countP (!·.isOperation) ≤ nestingLimit := by
  obtain ⟨e, he, -⟩ := parse_alternatives (k := 99) (by decide) none
  exact ⟨e, he, tooDeep_iff_exceeds he _ _⟩

theorem exceeds_alternatives (k : Nat) : Exceeds (2 * k) (alternatives k) := by
  induction k with
  | zero => exact exceeds_zero _
  | succ k ih =>
    have hresult : Exceeds (2 * k + 1) (.function .unknown [] (alternatives k)) :=
      exceeds_succ.2 ⟨_, by simp [resolvedParts, parts], ih⟩
    exact exceeds_succ.2 ⟨_, by simp [alternatives, resolvedParts, parts], hresult⟩

/-- Though 101 types nest in this text, the resolution complains that it nests too deep, as the
unions count once more. -/
theorem accepted_too_deep : ∃ e, parse (alternativesText 100) none = .ok e ∧
    ∀ registry s, ∃ t s' ds,
      (∀ report, resolve registry e ⟨s, report⟩ = (t, ⟨s', report.extend ds⟩)) ∧
      Message.typeTooDeep.code ∈ ds.map (·.code) := by
  obtain ⟨e, he, hsame⟩ := parse_alternatives (k := 100) (by decide) none
  refine ⟨e, he, fun registry s => ?_⟩
  obtain ⟨t, s', ds, ds', hrun, hrun', hsaid⟩ :=
    Agree.resolveWithin registry nestingLimit _ _ hsame s
  obtain ⟨u, s₁, es, hdeep, hes⟩ :=
    Overflows.resolveWithin registry nestingLimit (alternatives 100) s
  obtain ⟨-, -, rfl⟩ := Agree.eq_of_runs hrun' hdeep
  have hcodes : ds.map (·.code) = ds'.map (·.code) := by
    have hmap := congrArg (List.map fun said => said.2.1) hsaid
    rwa [List.map_map, List.map_map] at hmap
  exact ⟨t, s', ds, hrun, hcodes ▸ hes.2 (exceeds_alternatives 100)⟩

end Resolving
end TemplateCheck
