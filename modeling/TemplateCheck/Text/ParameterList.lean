/-!
Layout of comma-separated text: arguments and members on one line, parameters in parentheses with
one line each from three parameters on.
-/

namespace TemplateCheck.Text

def joinWith (separator : String) : List String → String
  | [] => ""
  | [text] => text
  | text :: rest => text ++ separator ++ joinWith separator rest

def commaList (texts : List String) : String := joinWith ", " texts

def multilineThreshold : Nat := 3

def parameterList (parameters : List String) : String :=
  if parameters.length < multilineThreshold then "(" ++ commaList parameters ++ ")"
  else "(\n  " ++ joinWith ",\n  " parameters ++ "\n)"

def typeMark (optional : Bool) : String := if optional then "?: " else ": "

def variadicMark (variadic : Bool) : String := if variadic then "..." else ""

def parenthesize (needed : Bool) (text : String) : String :=
  if needed then "(" ++ text ++ ")" else text

end TemplateCheck.Text
