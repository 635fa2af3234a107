import TemplateCheck.Proofs.Lists
import TemplateCheck.Resolve.Basic

/-! Resolution as one step over any resolution of the parts of an expression. What the steps keep
holds of resolution with any room. -/

namespace TemplateCheck.Resolving
open TypeExpr

/-- The parts of a record or signature: their names, which have to be different, and what is made
of a part and its type. -/
structure PartRule (γ δ : Type) where
  name : γ → String
  type : γ → TypeExpr
  make : γ → TypeId → δ
  repeated : γ → Resolving Unit

def fieldRule : PartRule (TypeExpr.Field TypeExpr) (RecordProperty TypeId) where
  name f := f.name
  type f := f.type
  make f t := ⟨f.name, f.optional, t⟩
  repeated f := complain f.nameLocation .duplicateRecordField [f.name]

def templateParamRule : PartRule (TemplateParam TypeExpr) (TemplateParameter TypeId) where
  name p := p.name
  type p := p.type
  make p t := ⟨p.name, p.kind, p.required, t⟩
  repeated p := complain p.nameLocation .duplicateTemplateParameter [p.spelling]

def functionParamRule : PartRule (FunctionParam TypeExpr) (FunctionParameter TypeId) where
  name p := p.name
  type p := p.type
  make p t := ⟨p.name, p.variadic, t⟩
  repeated p := complain p.nameLocation .duplicateFunctionParameter [p.spelling]

section Parts
variable {γ δ : Type}

def resolveList (resolve : TypeExpr → Resolving TypeId) : List TypeExpr → Resolving (List TypeId)
  | [] => return []
  | e :: rest => do return (← resolve e) :: (← resolveList resolve rest)

def resolveParts (rule : PartRule γ δ) (resolve : TypeExpr → Resolving TypeId)
    (seen : List String) : List γ → Resolving (Parts δ)
  | [] => return ([], false)
  | part :: rest => do
    let t ← resolve (rule.type part)
    if seen.contains (rule.name part) then
      rule.repeated part
      return .add none (← resolveParts rule resolve seen rest)
    else
      return .add (some (rule.make part t))
        (← resolveParts rule resolve (rule.name part :: seen) rest)

def ofParts (make : List δ → Making TypeId) (parts : Parts δ) : Resolving TypeId :=
  if parts.2 then return .error else making (make parts.1)

def ofContent (l : Location) (parts : Parts (TemplateParameter TypeId)) (t : TypeId) :
    Resolving TypeId := do
  if isTemplateResult ((← get).store.kind t) then
    ofParts (fun parameters => TypeStore.template parameters t) parts
  else faulty l .badTemplateReturn [← display t]

def ofArguments (l : Location) (name : String) (arity : Nat) (types : List TypeId) :
    Resolving TypeId :=
  match Registry.applyGeneric name types with
  | some make => making make
  | none => faulty l .genericArity [name, toString arity, toString types.length]

end Parts

structure Fresh (seen names : List String) : Prop where
  nodup : names.Nodup
  unseen : ∀ name ∈ names, name ∉ seen

theorem Fresh.nil (seen : List String) : Fresh seen [] := ⟨List.nodup_nil, List.forall_mem_nil _⟩

theorem Fresh.cons {seen names : List String} {name : String} (h : Fresh (name :: seen) names)
    (hname : ¬ seen.contains name) : Fresh seen (name :: names) where
  nodup := List.nodup_cons.2 ⟨fun hmem => h.unseen name hmem List.mem_cons_self, h.nodup⟩
  unseen := List.forall_mem_cons.2 ⟨mt List.contains_iff_mem.2 hname,
    fun n hn hmem => h.unseen n hn (List.mem_cons_of_mem _ hmem)⟩

variable (registry : Registry)

/-- One step of resolution; its parts are resolved by `resolve`. -/
def resolveStep (resolve : TypeExpr → Resolving TypeId) : TypeExpr → Resolving TypeId
  | .named l name => resolveName registry name l
  | .generic l name arguments =>
    match Registry.arity? name with
    | none => resolveNotGeneric registry name l
    | some arity =>
      if name = "html" then resolveElement l arguments
      else resolveList resolve arguments >>= ofArguments l name arity
  | .union _ candidates =>
    resolveList resolve candidates >>= fun types => making (TypeStore.union types)
  | .intersection _ candidates =>
    resolveList resolve candidates >>= fun types => making (TypeStore.intersection types)
  | .record _ fields => resolveParts fieldRule resolve [] fields >>= ofParts TypeStore.record
  | .template _ parameters result =>
    resolveParts templateParamRule resolve [] parameters >>= fun parts =>
      resolve result >>= ofContent result.location parts
  | .function _ parameters result =>
    resolveParts functionParamRule resolve [] parameters >>= fun parts =>
      resolve result >>= fun t => ofParts (fun parameters => TypeStore.function parameters t) parts
  | .indexed l base property => resolve base >>= fun t => indexType registry t property l
  | .literal l value => resolveLiteral l value

section Equations
variable (room : Nat)

theorem resolveAll_eq (es : List TypeExpr) :
    resolveAll registry room es = resolveList (resolveWithin registry room) es := by
  induction es with
  | nil => rfl
  | cons e rest ih => simp only [resolveAll, resolveList, ih]

theorem resolveFields_eq (seen : List String) (fields : List (TypeExpr.Field TypeExpr)) :
    resolveFields registry room seen fields =
      resolveParts fieldRule (resolveWithin registry room) seen fields := by
  induction fields generalizing seen with
  | nil => rfl
  | cons f rest ih => simp only [resolveFields, resolveParts, ih]; rfl

theorem resolveTemplateParams_eq (seen : List String) (params : List (TemplateParam TypeExpr)) :
    resolveTemplateParams registry room seen params =
      resolveParts templateParamRule (resolveWithin registry room) seen params := by
  induction params generalizing seen with
  | nil => rfl
  | cons p rest ih => simp only [resolveTemplateParams, resolveParts, ih]; rfl

theorem resolveFunctionParams_eq (seen : List String) (params : List (FunctionParam TypeExpr)) :
    resolveFunctionParams registry room seen params =
      resolveParts functionParamRule (resolveWithin registry room) seen params := by
  induction params generalizing seen with
  | nil => rfl
  | cons p rest ih => simp only [resolveFunctionParams, resolveParts, ih]; rfl

theorem resolveWithin_zero : resolveWithin registry 0 = fun e => tooDeep e.location := by
  funext e
  cases e <;> rw [resolveWithin, if_pos rfl] <;> rfl

theorem resolveWithin_succ :
    resolveWithin registry (room + 1) = resolveStep registry (resolveWithin registry room) := by
  funext e
  cases e <;> rw [resolveWithin, if_neg (Nat.succ_ne_zero room), resolveStep]
  all_goals simp only [resolveAll_eq, resolveFields_eq, resolveTemplateParams_eq,
    resolveFunctionParams_eq, Nat.add_sub_cancel]
  all_goals rfl

theorem resolveWithin_induct {motive : Nat → (TypeExpr → Resolving TypeId) → Prop}
    (deep : motive 0 fun e => tooDeep e.location)
    (step : ∀ room resolve, motive room resolve → motive (room + 1) (resolveStep registry resolve)) :
    motive room (resolveWithin registry room) := by
  induction room with
  | zero => rwa [resolveWithin_zero]
  | succ room ih =>
    rw [resolveWithin_succ]
    exact step room _ ih

end Equations

end TemplateCheck.Resolving
