import TemplateCheck.Text.UpperCase

/-!
Names of template parameters. A parameter is either a regular one or an HTML attribute, which is
written in lower case with hyphens and named in camel case.
-/

namespace TemplateCheck

inductive ParameterKind where
  | regular
  | htmlAttribute
deriving DecidableEq, Hashable, Repr

namespace ParameterName

/-- Drops hyphens and upper-cases the character after a run of them; `raise` says that a hyphen
came just before. -/
def camelCaseFrom (raise : Bool) : List Char → List Char
  | [] => []
  | c :: rest =>
    if c = '-' then camelCaseFrom true rest
    else (if raise then Text.upperCase c else [c]) ++ camelCaseFrom false rest

/-- The parameter named by an attribute: `data-item-id` gives `dataItemId`. -/
def ofAttribute (text : String) : String :=
  String.ofList (camelCaseFrom false text.toList)

def hyphenate (c : Char) : List Char := if c.isUpper then ['-', c.toLower] else [c]

/-- The attribute of a parameter: each upper-case ASCII letter becomes a hyphen and its lower-case
letter. -/
def toAttribute (name : String) : String :=
  String.ofList (name.toList.flatMap hyphenate)

end ParameterName
end TemplateCheck
