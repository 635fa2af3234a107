import TemplateCheck.Diagnostic.Basic
import TemplateCheck.Template.Node

/-!
Making the nodes of template files, so that a velog is its own key and tags are paired both ways.
-/

namespace TemplateCheck

def CommandAttribute.logonly (attributes : List CommandAttribute) : Option Expr :=
  (attributes.find? (·.name == "logonly")).map (·.value)

def CommandAttribute.reportUnsupported (attributes : List CommandAttribute) (report : Report) :
    Report :=
  (attributes.filter (·.name != "logonly")).foldl
    (fun report a => report.error a.nameLocation .unsupportedAttributeKey
      [a.name, "velog", "logonly"]) report

abbrev Building := Editing Node

namespace Building

def file (path ns : String) : Building NodeId := Editing.add ⟨some path, 0, 0⟩ (.file path ns)

def template (l : Location) (name : String) : Building NodeId := Editing.add l (.template name [])

def addParam (n : NodeId) (name : String) (typeExpr : Option TypeExpr) (required : Bool) :
    Building Unit := do
  match ← Editing.query (·.payload n) with
  | .template title params =>
    Editing.modifySlot n fun slot =>
      { slot with payload := .template title (params ++ [⟨name, typeExpr, required, none⟩]) }
  | _ => throw (.notA n "a template")

def rawText (l : Location) (text : String) : Building NodeId := Editing.add l (.rawText text)

def print (l : Location) (expr : Expr) : Building NodeId := Editing.add l (.print expr)

def const (l : Location) (name : String) (expr : Expr) (exported : Bool)
    (typeExpr : Option TypeExpr) : Building NodeId :=
  Editing.add l (.const ⟨name, expr, exported, typeExpr, none⟩)

def velog (l : Location) (data : Expr) (attributes : List CommandAttribute) : Building NodeId := do
  let n := (← getThe (Tree Node)).next
  Editing.add l (.velog ⟨data, attributes, CommandAttribute.logonly attributes, false, n⟩)

def msgPlaceholder (l : Location) (name : String) : Building NodeId :=
  Editing.add l (.msgPlaceholder name)

def key (l : Location) (expr : Expr) : Building NodeId := Editing.add l (.key expr)

def openTag (l : Location) (name : String) (selfClosing : Bool) : Building NodeId :=
  Editing.add l (.openTag ⟨name, selfClosing, []⟩)

def closeTag (l : Location) (name : String) : Building NodeId :=
  Editing.add l (.closeTag ⟨name, false, []⟩)

def htmlAttribute (l : Location) (name : String) (value : Option String) : Building NodeId :=
  Editing.add l (.htmlAttribute name value)

def switch (l : Location) (expr : Expr) : Building NodeId := Editing.add l (.switch expr)

def case (l : Location) (exprs : List Expr) : Building NodeId := Editing.add l (.case exprs)

def default (l : Location) : Building NodeId := Editing.add l .default

def pushPair (n pair : NodeId) : Building Unit :=
  Editing.modifySlot n fun slot =>
    { slot with payload := slot.payload.changeTag fun tag =>
        { tag with pairs := tag.pairs ++ [pair] } }

def pairTags (opening closing : NodeId) : Building Unit := do
  match ← Editing.query (·.payload opening) with
  | .openTag _ => pushPair opening closing
  | node => throw (.isInstead opening node.kind.name "an open tag")
  match ← Editing.query (·.payload closing) with
  | .closeTag _ => pushPair closing opening
  | node => throw (.isInstead closing node.kind.name "a close tag")

end Building
end TemplateCheck
