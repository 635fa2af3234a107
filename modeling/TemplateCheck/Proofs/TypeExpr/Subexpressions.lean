import TemplateCheck.TypeExpr.Basic

/-! The types that an expression is put together from. -/

namespace TemplateCheck.TypeExpr

/-- The parts of an expression that are types, in the order in which they are written. -/
def parts : TypeExpr → List TypeExpr
  | named .. | literal .. => []
  | generic _ _ arguments => arguments
  | union _ candidates | intersection _ candidates => candidates
  | record _ fields => fields.map (·.type)
  | template _ parameters result => parameters.map (·.type) ++ [result]
  | function _ parameters result => parameters.map (·.type) ++ [result]
  | indexed _ base _ => [base]

def pieces : TypeExpr → List Location
  | named .. | literal .. => []
  | generic _ _ arguments => arguments.map (·.location)
  | union _ candidates | intersection _ candidates => candidates.map (·.location)
  | record _ fields => fields.flatMap fun f => [f.nameLocation, f.type.location]
  | template _ parameters result =>
    (parameters.flatMap fun p => [p.nameLocation, p.type.location]) ++ [result.location]
  | function _ parameters result =>
    (parameters.flatMap fun p => [p.nameLocation, p.type.location]) ++ [result.location]
  | indexed _ base _ => [base.location]

/-- Expressions that an operator puts together; they start with an operand. -/
def isOperation : TypeExpr → Bool
  | union .. | intersection .. | indexed .. => true
  | _ => false

def isAccess : TypeExpr → Bool
  | indexed .. => true
  | _ => false

/-- `n` is `e`, or a part of it at any depth. -/
inductive Contains : TypeExpr → TypeExpr → Prop where
  | self (e : TypeExpr) : Contains e e
  | part {e p n : TypeExpr} (hp : p ∈ e.parts) (h : Contains p n) : Contains e n

end TemplateCheck.TypeExpr
