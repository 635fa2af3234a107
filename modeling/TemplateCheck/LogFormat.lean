import TemplateCheck.Text.Blank

/-!
The choice between the formats of log output.
-/

namespace TemplateCheck

inductive LogFormat where
  | text
  | tree
  | json
deriving DecidableEq, Repr

def LogFormat.parse (value : String) : LogFormat :=
  let name := String.ofList ((Text.trimBlank value.toList).map Char.toLower)
  if name = "tree" then .tree else if name = "json" then .json else .text

end TemplateCheck
