import TemplateCheck.Template.Expr
import TemplateCheck.Tree.Copy
import TemplateCheck.Tree.Source
import TemplateCheck.TypeExpr.Printer

/-!
The nodes of template files.
-/

namespace TemplateCheck

inductive NodeKind where
  | file
  | template
  | rawText
  | print
  | const
  | velog
  | msgPlaceholder
  | key
  | openTag
  | closeTag
  | htmlAttribute
  | switch
  | case
  | default
deriving DecidableEq, Repr

namespace NodeKind

def name : NodeKind → String
  | file => "file"
  | template => "template"
  | rawText => "raw text"
  | print => "print"
  | const => "const"
  | velog => "velog"
  | msgPlaceholder => "msg placeholder"
  | key => "key"
  | openTag => "html open tag"
  | closeTag => "html close tag"
  | htmlAttribute => "html attribute"
  | switch => "switch"
  | case => "case"
  | default => "default"

end NodeKind

structure Param where
  name : String
  typeExpr : Option TypeExpr
  required : Bool
  type : Option TypeId

structure Const where
  name : String
  expr : Expr
  exported : Bool
  typeExpr : Option TypeExpr
  type : Option TypeId

structure CommandAttribute where
  name : String
  nameLocation : Location
  value : Expr

def CommandAttribute.text (a : CommandAttribute) : String :=
  a.name ++ "=\"" ++ a.value.text ++ "\""

structure Velog where
  data : Expr
  attributes : List CommandAttribute
  logonly : Option Expr
  needsSynthetic : Bool
  /-- The velog whose expressions decide whether two placeholders are the same. -/
  samenessKey : NodeId

structure Tag where
  name : String
  selfClosing : Bool
  pairs : List NodeId

inductive Node where
  | file (path fileNamespace : String)
  | template (name : String) (params : List Param)
  | rawText (text : String)
  | print (expr : Expr)
  | const (c : Const)
  | velog (v : Velog)
  | msgPlaceholder (name : String)
  | key (expr : Expr)
  | openTag (tag : Tag)
  | closeTag (tag : Tag)
  | htmlAttribute (name : String) (value : Option String)
  | switch (expr : Expr)
  | case (exprs : List Expr)
  | default

abbrev TemplateTree := Tree Node

namespace Node

def kind : Node → NodeKind
  | file .. => .file
  | template .. => .template
  | rawText _ => .rawText
  | print _ => .print
  | const _ => .const
  | velog _ => .velog
  | msgPlaceholder _ => .msgPlaceholder
  | key _ => .key
  | openTag _ => .openTag
  | closeTag _ => .closeTag
  | htmlAttribute .. => .htmlAttribute
  | switch _ => .switch
  | case _ => .case
  | default => .default

def isRendered : Node → Bool
  | const _ => false
  | _ => true

def tag? : Node → Option Tag
  | openTag tag => some tag
  | closeTag tag => some tag
  | _ => none

def changeTag (change : Tag → Tag) : Node → Node
  | openTag tag => openTag (change tag)
  | closeTag tag => closeTag (change tag)
  | node => node

/-- Tags refer to their pairs, and velogs to the velog of their key. -/
def references : Node → List NodeId
  | openTag tag => tag.pairs
  | closeTag tag => tag.pairs
  | velog v => [v.samenessKey]
  | _ => []

def redirect (index : Nat) (target : NodeId) : Node → Node
  | velog v => velog { v with samenessKey := target }
  | node => node.changeTag fun tag => { tag with pairs := tag.pairs.set index target }

instance : CrossReferring Node := ⟨references, redirect⟩

def annotationText (e : Option TypeExpr) : String :=
  match e with
  | some e => ": " ++ e.print
  | none => ""

def command (text : String) : String := "\x7b" ++ text ++ "\x7d"

def paramText (p : Param) : String :=
  "  " ++ command ((if p.required then "@param " else "@param? ") ++ p.name ++
    annotationText p.typeExpr) ++ "\n"

def opening : Node → String
  | file _ ns => if ns = "" then "" else command ("namespace " ++ ns) ++ "\n"
  | template name params =>
    command ("template " ++ name) ++ "\n" ++ String.join (params.map paramText)
  | rawText text => text
  | print expr => command expr.text
  | const c =>
    command ((if c.exported then "export " else "") ++ "const " ++ c.name ++
      annotationText c.typeExpr ++ " = " ++ c.expr.text ++ " /")
  | velog v =>
    command ("velog " ++ v.data.text ++
      String.join (v.attributes.map fun a => " " ++ a.text))
  | msgPlaceholder _ => ""
  | key expr => command ("key " ++ expr.text)
  | openTag tag => "<" ++ tag.name
  | closeTag tag => "</" ++ tag.name ++ ">"
  | htmlAttribute name value =>
    match value with
    | some value => name ++ "=\"" ++ value ++ "\""
    | none => name
  | switch expr => command ("switch " ++ expr.text)
  | case exprs => command ("case " ++ Text.commaList (exprs.map (·.text)))
  | default => command "default"

def closing : Node → String
  | template .. => command "/template" ++ "\n"
  | velog _ => command "/velog"
  | switch _ => command "/switch"
  | openTag tag => if tag.selfClosing then "/>" else ">"
  | _ => ""

def separator : Node → String
  | openTag _ => " "
  | _ => ""

instance : Sourced Node := ⟨opening, closing, separator⟩

end Node
end TemplateCheck
