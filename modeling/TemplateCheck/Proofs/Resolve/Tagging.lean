import TemplateCheck.Proofs.Resolve.Repeating
import TemplateCheck.Proofs.Types.Tags

/-! Sessions in which expressions are resolved, too. All types that they hand out are known, and all
tags of stored element types stand for themselves. -/

namespace TemplateCheck
open TypeStore

section Properties
variable {pool : Proto.Pool}

theorem keepsTags_fieldType (type : Proto.FieldType) : KeepsTags (type.typeId pool) := by
  cases type with
  | message name =>
    rw [Proto.FieldType.typeId]
    split
    · exact keepsTags_make (.message _)
    · exact keepsTags_pure _
  | enum name =>
    rw [Proto.FieldType.typeId]
    split
    · exact keepsTags_make (.enum _)
    · exact keepsTags_pure _
  | _ => exact keepsTags_pure _

theorem keepsTags_field (f : Proto.Field) : KeepsTags (f.typeId pool) := by
  unfold Proto.Field.typeId
  split
  · exact keepsTags_fieldType _
  · exact (keepsTags_fieldType _).bind fun t => keepsTags_make (.list t)
  · exact (keepsTags_fieldType _).bind fun k =>
      (keepsTags_fieldType _).bind fun v => keepsTags_make (.map k v)

namespace PropertyResult

theorem keepsTags_ofPart (optional : Bool) (t : TypeId) : KeepsTags (ofPart optional t) := by
  unfold ofPart
  split
  · exact (keepsTags_union _).bind fun _ => keepsTags_pure _
  · exact keepsTags_pure _

theorem keepsTags_ofForm (property : String) (d : TypeData) :
    KeepsTags (ofForm pool property d) := by
  unfold ofForm
  split
  · exact keepsTags_pure _
  · split
    · exact keepsTags_ofPart _ _
    · exact keepsTags_pure _
  · split
    · exact keepsTags_ofPart _ _
    · exact keepsTags_pure _
  · split
    · exact (keepsTags_field _).bind fun _ => keepsTags_pure _
    · exact keepsTags_pure _
  · exact keepsTags_pure _

theorem keepsTags_collect {one : TypeId → Making PropertyResult} (hone : ∀ t, KeepsTags (one t))
    (types : List TypeId) : KeepsTags (collect one types) := by
  induction types with
  | nil => exact keepsTags_pure _
  | cons t rest ih =>
    refine (hone t).bind fun result => ?_
    cases result with
    | found u => exact ih.bind fun us => by cases us <;> exact keepsTags_pure _
    | missing => exact keepsTags_pure _
    | notIndexable => exact keepsTags_pure _

theorem keepsTags_within (property : String) (depth : Nat) (t : TypeId) :
    KeepsTags (within pool property depth t) := by
  induction depth generalizing t with
  | zero => exact keepsTags_pure _
  | succ depth ih =>
    refine .get fun s => ?_
    split
    · exact (keepsTags_collect ih _).bind fun types => by
        cases types with
        | ok types => exact (keepsTags_union _).bind fun _ => keepsTags_pure _
        | error result => exact keepsTags_pure _
    · exact keepsTags_ofForm _ _

end PropertyResult

theorem keepsTags_property (t : TypeId) (property : String) :
    KeepsTags (TypeStore.property pool t property) :=
  .get fun _ => PropertyResult.keepsTags_within _ _ _

end Properties

section Names
variable {registry : Registry}

theorem keepsTags_builtins : ∀ entry ∈ Registry.builtins, KeepsTags entry.2 := by
  have hpure (t : TypeId) : KeepsTags (pure t) := keepsTags_pure t
  have hnumber : KeepsTags TypeStore.number := keepsTags_union _
  simp only [Registry.builtins, List.forall_mem_cons]
  exact ⟨hpure .any, hpure .unknown, hpure .never, hpure .null, hpure .undefined, hpure .bool,
    hpure .int, hpure .float, hnumber, hpure .string, hpure .html, hpure .css, hpure .js,
    hpure .uri, hpure .trustedResourceUri, hpure .attributes, hpure .message,
    List.forall_mem_nil _⟩

theorem keepsTags_named (name : String) : KeepsTags (registry.named? name) := by
  unfold Registry.named?
  split
  next make hmake =>
    obtain ⟨before, after, hmem, -⟩ := List.lookup_eq_some_iff.1 hmake
    have hbuiltin := keepsTags_builtins (name, make) (by simp [hmem])
    exact hbuiltin.map _
  next =>
    split
    · exact keepsTags_pure _
    · split
      next m _ =>
        have hmessage : KeepsTags (TypeStore.message m) := keepsTags_make (.message m)
        exact hmessage.map _
      next =>
        split
        next e _ =>
          have henum : KeepsTags (TypeStore.enum e) := keepsTags_make (.enum e)
          exact henum.map _
        next => exact keepsTags_pure _

theorem keepsTags_firstKnown (segments : List String) (count : Nat) :
    KeepsTags (Resolving.firstKnown registry segments count) := by
  induction count with
  | zero => exact keepsTags_pure _
  | succ count ih =>
    refine (keepsTags_named _).bind fun found => ?_
    cases found with
    | some t => exact keepsTags_pure _
    | none => exact ih

theorem keepsTags_applyGeneric {name : String} {types : List TypeId} {make : Making TypeId}
    (h : Registry.applyGeneric name types = some make) : KeepsTags make := by
  unfold Registry.applyGeneric at h
  split at h
  · cases h
    exact keepsTags_make (.list _)
  · cases h
    exact keepsTags_make (.set _)
  · cases h
    exact keepsTags_make (.iterable _)
  · cases h
    exact keepsTags_make (.map _ _)
  · cases h
    exact keepsTags_make (.legacyObjectMap _ _)
  · cases h

end Names

def LeavesTags {α : Type} (m : Resolving α) : Prop :=
  ∀ r : Resolution, r.store.Tagged → (m r).2.store.Tagged

namespace LeavesTags
open Resolving

section Steps
variable {α β : Type} {m : Resolving α} {f : α → Resolving β}

theorem ret (a : α) : LeavesTags (pure a) := fun _ h => h

theorem bind (hm : LeavesTags m) (hf : ∀ a, LeavesTags (f a)) : LeavesTags (m >>= f) :=
  fun r h => hf (m r).1 (m r).2 (hm r h)

theorem read {f : Resolution → Resolving β} (hf : ∀ r, LeavesTags (f r)) :
    LeavesTags (get >>= f) :=
  fun r h => hf r r h

theorem making {m : Making α} (h : KeepsTags m) : LeavesTags (making m) :=
  fun r hr => h r.store hr

theorem complain (l : Location) (message : Message) (arguments : List String) :
    LeavesTags (complain l message arguments) :=
  fun _ h => h

theorem faulty (l : Location) (message : Message) (arguments : List String) :
    LeavesTags (faulty l message arguments) :=
  (complain l message arguments).bind fun _ => ret _

end Steps

section Rules
variable {registry : Registry}

theorem indexType (base : TypeId) (property : String) (l : Location) :
    LeavesTags (indexType registry base property l) := by
  refine (making (keepsTags_property base property)).bind fun result => ?_
  cases result with
  | found t => exact ret t
  | missing => exact read fun _ => faulty _ _ _
  | notIndexable => exact read fun _ => faulty _ _ _

theorem indexAll (l : Location) (t : TypeId) (properties : List String) :
    LeavesTags (indexAll registry l t properties) := by
  induction properties generalizing t with
  | nil => exact ret t
  | cons property rest ih => exact (indexType t property l).bind ih

theorem resolveName (name : String) (l : Location) :
    LeavesTags (resolveName registry name l) := by
  refine (making (keepsTags_named name)).bind fun found => ?_
  cases found with
  | some t => exact ret t
  | none =>
    refine (making (keepsTags_firstKnown _ _)).bind fun found => ?_
    cases found with
    | some found => exact indexAll _ _ _
    | none =>
      dsimp only
      split
      · exact faulty _ _ _
      · exact faulty _ _ _

theorem resolveNotGeneric (name : String) (l : Location) :
    LeavesTags (resolveNotGeneric registry name l) := by
  refine (making (keepsTags_named name)).bind fun found => ?_
  split
  · exact faulty _ _ _
  · exact faulty _ _ _

theorem resolveElement (l : Location) (arguments : List TypeExpr) :
    LeavesTags (resolveElement l arguments) := by
  unfold Resolving.resolveElement
  split
  · split
    · exact faulty _ _ _
    · exact making (keepsTags_element _)
  · exact faulty _ _ _
  · exact faulty _ _ _

theorem resolveLiteral (l : Location) (value : TypeExpr.Literal) :
    LeavesTags (resolveLiteral l value) := by
  cases value with
  | null | undefined => exact ret _
  | string value => exact making (keepsTags_make (.literal value))
  | other text => exact faulty _ _ _

variable {resolve : TypeExpr → Resolving TypeId}

theorem resolveList (h : ∀ e, LeavesTags (resolve e)) (es : List TypeExpr) :
    LeavesTags (resolveList resolve es) := by
  induction es with
  | nil => exact ret _
  | cons e rest ih => exact (h e).bind fun _ => ih.bind fun _ => ret _

theorem resolveParts {γ δ : Type} (rule : PartRule γ δ)
    (hrepeated : ∀ g, LeavesTags (rule.repeated g)) (h : ∀ e, LeavesTags (resolve e))
    (seen : List String) (given : List γ) : LeavesTags (resolveParts rule resolve seen given) := by
  induction given generalizing seen with
  | nil => exact ret _
  | cons g rest ih =>
    refine (h (rule.type g)).bind fun t => ?_
    split
    · exact (hrepeated g).bind fun _ => (ih seen).bind fun _ => ret _
    · exact (ih _).bind fun _ => ret _

theorem ofParts {δ : Type} {make : List δ → Making TypeId} (h : ∀ given, KeepsTags (make given))
    (parts : Parts δ) : LeavesTags (ofParts make parts) := by
  unfold Resolving.ofParts
  split
  · exact ret _
  · exact making (h _)

theorem ofContent (l : Location) (parts : Parts (TemplateParameter TypeId)) (t : TypeId) :
    LeavesTags (ofContent l parts t) := by
  refine read fun r => ?_
  split
  · exact ofParts (fun _ => keepsTags_template _ _) parts
  · exact read fun _ => faulty _ _ _

theorem ofArguments (l : Location) (name : String) (arity : Nat) (types : List TypeId) :
    LeavesTags (ofArguments l name arity types) := by
  unfold Resolving.ofArguments
  split
  next make hmake => exact making (keepsTags_applyGeneric hmake)
  next => exact faulty _ _ _

theorem resolveStep (ih : ∀ e, LeavesTags (resolve e)) (e : TypeExpr) :
    LeavesTags (resolveStep registry resolve e) := by
  cases e with
  | named l name => exact resolveName name l
  | generic l name arguments =>
    rw [Resolving.resolveStep]
    split
    · exact resolveNotGeneric name l
    · split
      · exact resolveElement l arguments
      · exact (resolveList ih arguments).bind (ofArguments l name _)
  | union l candidates =>
    exact (resolveList ih candidates).bind fun types => making (keepsTags_union types)
  | intersection l candidates =>
    exact (resolveList ih candidates).bind fun types => making (keepsTags_intersection types)
  | record l fields =>
    exact (resolveParts fieldRule (fun _ => complain _ _ _) ih [] fields).bind
      (ofParts keepsTags_record)
  | template l parameters result =>
    exact (resolveParts templateParamRule (fun _ => complain _ _ _) ih [] parameters).bind
      fun parts => (ih result).bind (ofContent _ parts)
  | function l parameters result =>
    exact (resolveParts functionParamRule (fun _ => complain _ _ _) ih [] parameters).bind
      fun parts => (ih result).bind fun t => ofParts (fun _ => keepsTags_function _ t) parts
  | indexed l base property => exact (ih base).bind fun t => indexType t property l
  | literal l value => exact resolveLiteral l value

theorem resolveWithin (room : Nat) (e : TypeExpr) : LeavesTags (resolveWithin registry room e) :=
  resolveWithin_induct registry room (motive := fun _ resolve => ∀ e, LeavesTags (resolve e))
    (fun _ => faulty _ _ _) (fun _ _ => resolveStep) e

end Rules
end LeavesTags

namespace Session
variable {σ τ : Session}

def resolved (σ : Session) (registry : Registry) (e : TypeExpr) : Session :=
  let answer := Resolving.resolve registry e ⟨σ.store, .empty⟩
  ⟨answer.2.store, answer.1 :: σ.issued⟩

inductive Uses (σ : Session) : Session → Prop where
  | refl : Uses σ σ
  | call {τ : Session} (h : Uses σ τ) (c : Call) (hc : τ.Allows c) : Uses σ (τ.call c)
  | resolve {τ : Session} (h : Uses σ τ) (registry : Registry)
      (haliases : ∀ entry ∈ registry.aliases, entry.2 ∈ τ.issued) (e : TypeExpr) :
      Uses σ (τ.resolved registry e)

/-- The session is one of a new store, in which types were made and expressions resolved. -/
def Used (σ : Session) : Prop := ∃ place, Uses (start place) σ

theorem Reached.used (h : σ.Reached) : σ.Used := by
  obtain ⟨place, hruns⟩ := h
  refine ⟨place, ?_⟩
  induction hruns with
  | refl => exact .refl
  | call _ c hc ih => exact .call ih c hc

theorem Valid.serves (h : σ.Valid) {registry : Registry}
    (haliases : ∀ entry ∈ registry.aliases, entry.2 ∈ σ.issued) :
    registry.Serves False σ.store :=
  ⟨False.elim, fun entry hentry => ⟨h.known _ (haliases entry hentry), False.elim⟩⟩

theorem Valid.resolved (h : σ.Valid) {registry : Registry}
    (haliases : ∀ entry ∈ registry.aliases, entry.2 ∈ σ.issued) (e : TypeExpr) :
    (σ.resolved registry e).Valid := by
  have hserves := h.serves haliases
  obtain ⟨t, s, ds, hrun, ht⟩ :=
    Repeats.resolveWithin registry TypeExpr.nestingLimit e False σ.store hserves h.sound
  have hresolved : σ.resolved registry e = ⟨s, t :: σ.issued⟩ := by
    rw [Session.resolved, Resolving.resolve, hrun.run]
  rw [hresolved]
  exact ⟨hrun.sound, List.forall_mem_cons.2
    ⟨ht.known, fun u hu => hrun.grows.known (h.known u hu)⟩⟩

theorem Used.valid (h : σ.Used) : σ.Valid := by
  obtain ⟨place, huses⟩ := h
  induction huses with
  | refl => exact valid_start place
  | call _ c hc ih => exact ih.call hc
  | resolve _ registry haliases e ih => exact ih.resolved haliases e

theorem Used.tagged (h : σ.Used) : σ.store.Tagged := by
  obtain ⟨place, huses⟩ := h
  induction huses with
  | refl => exact tagged_empty place
  | call _ c _ ih => exact keepsTags_make c _ ih
  | @resolve τ _ registry _ e ih =>
    exact LeavesTags.resolveWithin TypeExpr.nestingLimit e ⟨τ.store, .empty⟩ ih

end Session

end TemplateCheck
