import TemplateCheck.Binary64.Text
import TemplateCheck.Text.Quoted
import TemplateCheck.Types.Store

/-!
Expressions of templates: literals, variables, and everything else as written.
-/

namespace TemplateCheck

inductive Expr where
  | null
  | bool (value : Bool)
  | int (value : Int)
  | float (value : Binary64)
  | string (value : String)
  /-- A variable, with its type once that is known. -/
  | var (name : String) (type : Option TypeId)
  | other (text : String)
deriving Repr

namespace Expr

def text : Expr → String
  | null => "null"
  | bool value => if value then "true" else "false"
  | int value => toString value
  | float value => value.text
  | string value => Text.expressionEscapes.quoteString value
  | var name _ => "$" ++ name
  | other text => text

def equal : Expr → Expr → Bool
  | null, null => true
  | bool a, bool b => a == b
  | int a, int b => a == b
  | float a, float b => a.ieeeEq b
  | string a, string b => a == b
  | var a t, var b u => a == b && t == u
  | other a, other b => a == b
  | _, _ => false

def equivalent : Expr → Expr → Bool
  | float a, float b => a.bits == b.bits
  | var a _, var b _ => a == b
  | a, b => a.equal b

end Expr
end TemplateCheck
