import TemplateCheck.Types.Store

/-!
The kinds of content that templates and blocks produce.
-/

namespace TemplateCheck

inductive ContentKind where
  | html
  | htmlElement
  | attributes
  | js
  | css
  | uri
  | trustedResourceUri
  | text
deriving DecidableEq, Repr

namespace ContentKind

def all : List ContentKind :=
  [html, htmlElement, attributes, js, css, uri, trustedResourceUri, text]

def spelling : ContentKind → String
  | html => "html"
  | htmlElement => "html<?>"
  | attributes => "attributes"
  | js => "js"
  | css => "css"
  | uri => "uri"
  | trustedResourceUri => "trusted_resource_uri"
  | text => "text"

def ofSpelling? (text : String) : Option ContentKind := all.find? (·.spelling == text)

def identifier : ContentKind → String
  | htmlElement => "html_element"
  | kind => kind.spelling

def typeId : ContentKind → TypeId
  | html => .html
  | htmlElement => .element
  | attributes => .attributes
  | js => .js
  | css => .css
  | uri => .uri
  | trustedResourceUri => .trustedResourceUri
  | text => .string

def ofKind? : Kind → Option ContentKind
  | .intrinsic .html => some html
  | .element => some htmlElement
  | .intrinsic .attributes => some attributes
  | .intrinsic .js => some js
  | .intrinsic .css => some css
  | .intrinsic .uri => some uri
  | .intrinsic .trustedResourceUri => some trustedResourceUri
  | _ => none

def ofType? (s : TypeStore) (t : TypeId) : Option ContentKind := ofKind? (s.kind t)

end ContentKind
end TemplateCheck
