import TemplateCheck.Check.Basic

/-!
Resolving the annotations of constants and parameters, and giving the declared types to the
variables that refer to them. Parameters hide constants, and a later declaration an earlier one.
-/

namespace TemplateCheck

/-- Names with their types, the latest declaration first. -/
abbrev Scope := List (String × TypeId)

def Expr.assignType (scope : Scope) : Expr → Expr
  | var name none => var name (scope.lookup name)
  | e => e

def Node.assignTypes (scope : Scope) : Node → Node
  | print expr => print (expr.assignType scope)
  | key expr => key (expr.assignType scope)
  | switch expr => switch (expr.assignType scope)
  | case exprs => case (exprs.map (·.assignType scope))
  | velog v =>
    velog { v with
      data := v.data.assignType scope
      logonly := v.logonly.map (·.assignType scope) }
  | node => node

namespace Checking

variable (registry : Registry)

def resolve (e : TypeExpr) : Checking TypeId := resolving (Resolving.resolve registry e)

def resolveConst (scope : Scope) (n : NodeId) : Checking Scope := do
  match ← query (·.payload n) with
  | .const c =>
    match c.typeExpr with
    | some e =>
      let t ← resolve registry e
      modifyPayload n fun _ => .const { c with type := some t }
      return (c.name, t) :: scope
    | none => return scope
  | _ => return scope

def resolveParams (scope : Scope) : List Param → Checking (List Param × Scope)
  | [] => return ([], scope)
  | p :: rest => do
    let t ← match p.typeExpr with
      | some e => resolve registry e
      | none => pure TypeId.unknown
    let (params, scope) ← resolveParams ((p.name, t) :: scope) rest
    return ({ p with type := some t } :: params, scope)

def resolveTemplate (fileScope : Scope) (n : NodeId) : Checking Unit := do
  match ← query (·.payload n) with
  | .template name params =>
    let (params, scope) ← resolveParams registry fileScope params
    modifyPayload n fun _ => .template name params
    (← query (·.descendants n)).forM fun m => modifyPayload m (·.assignTypes scope)
  | _ => return ()

/-- Resolves all types of a file. -/
def resolveTypes (file : NodeId) : Checking Unit := do
  let consts ← query (TemplateTree.ofKind · file .const)
  let scope ← consts.foldlM (resolveConst registry) []
  let templates ← query (TemplateTree.ofKind · file .template)
  templates.forM (resolveTemplate registry scope)

end Checking
end TemplateCheck
