import TemplateCheck.TypeExpr.Parser

/-! The grammar of type expressions over tokens. A function or template reaches as far as possible,
so an operand that ends with the result of one is never followed by an operator; this makes the
grammar unambiguous. Depth counts the nested types that a reading may use. -/

namespace TemplateCheck.TypeExpr

inductive Level where
  | type
  | inter
  | post
  | primary
deriving DecidableEq, Repr

inductive Ending where
  | closed
  | result
deriving DecidableEq, Repr

/-- `m` is `e` followed by accesses to the properties in `path`. -/
inductive Accessed : TypeExpr → List String → TypeExpr → Prop where
  | done (e : TypeExpr) : Accessed e [] e
  | step {e m : TypeExpr} {p : String} {path : List String} (l : Location)
      (h : Accessed (.indexed l e p) path m) : Accessed e (p :: path) m

def separate (separator : Token) : List (List Token) → List Token
  | [] => []
  | [ts] => ts
  | ts :: rest => ts ++ separator :: separate separator rest

def commaEnd (items : List (List Token)) (trailing : Bool) : List Token :=
  if trailing && !items.isEmpty then [.comma] else []

def entryTokens (items : List (List Token)) (trailing : Bool) : List Token :=
  separate .comma items ++ commaEnd items trailing

def optionalMark (optional : Bool) : List Token := if optional then [.question] else []

def fieldHead (f : Field TypeExpr) : List Token :=
  .name f.name :: (optionalMark f.optional ++ [.colon])

def functionParamHead (p : FunctionParam TypeExpr) : List Token :=
  (if p.variadic then [.ellipsis] else []) ++ [.name p.spelling, .colon]

def paramToken (p : TemplateParam TypeExpr) : Token :=
  match p.kind with
  | .regular => .name p.spelling
  | .htmlAttribute => .attributeName (String.ofList (p.spelling.toList.drop 1))

def templateParamHead (p : TemplateParam TypeExpr) : List Token :=
  paramToken p :: (optionalMark (!p.required) ++ [.colon])

def TemplateParam.Named (p : TemplateParam TypeExpr) : Prop :=
  match p.kind with
  | .regular => p.name = p.spelling ∧ Text.isDotted p.spelling = false
  | .htmlAttribute => ∃ text, p.spelling = "@" ++ text ∧ p.name = ParameterName.ofAttribute text

def FunctionParam.Named (p : FunctionParam TypeExpr) : Prop :=
  p.name = p.spelling ∧ Text.isDotted p.spelling = false

def keywords : List (String × Literal) :=
  [("null", .null), ("undefined", .undefined), ("true", .other "true"), ("false", .other "false")]

/-- `Spells depth level ending tokens e`: the tokens are read as `e` at this level. -/
inductive Spells : Nat → Level → Ending → List Token → TypeExpr → Prop where
  | single {d b ts e} (h : Spells d .inter b ts e) : Spells (d + 1) .type .closed ts e
  | union {d b ts e} (l : Location) (init : List (List Token × TypeExpr)) (nonempty : init ≠ [])
      (hinit : ∀ p ∈ init, Spells d .inter .closed p.1 p.2) (hlast : Spells d .inter b ts e) :
      Spells (d + 1) .type .closed (separate .bar (init.map (·.1) ++ [ts]))
        (.union l (init.map (·.2) ++ [e]))
  | operand {d b ts e} (h : Spells d .post b ts e) : Spells d .inter b ts e
  | intersection {d b ts e} (l : Location) (init : List (List Token × TypeExpr))
      (nonempty : init ≠ []) (hinit : ∀ p ∈ init, Spells d .post .closed p.1 p.2)
      (hlast : Spells d .post b ts e) :
      Spells d .inter b (separate .ampersand (init.map (·.1) ++ [ts]))
        (.intersection l (init.map (·.2) ++ [e]))
  | plain {d b ts e} (h : Spells d .primary b ts e) : Spells d .post b ts e
  | access {d ts e m} (paths : List String) (nonempty : paths ≠ [])
      (h : Spells d .primary .closed ts e) (hm : Accessed e (paths.flatMap Text.segments) m) :
      Spells d .post .closed (ts ++ paths.flatMap fun p => [.dot, .name p]) m
  | unknown {d} (l : Location) : Spells d .primary .closed [.question] (.named l "?")
  | quoted {d} (l : Location) (value : String) :
      Spells d .primary .closed [.quoted value] (.literal l (.string value))
  | number {d} (l : Location) (text : String) :
      Spells d .primary .closed [.number text] (.literal l (.other text))
  | keyword {d name value} (l : Location) (h : (name, value) ∈ keywords) :
      Spells d .primary .closed [.name name] (.literal l value)
  | named {d name} (l : Location) (h : name ∉ keywords.map (·.1)) :
      Spells d .primary .closed [.name name] (.named l name)
  | generic {d name} (l : Location) (h : name ∉ keywords.map (·.1))
      (arguments : List (List Token × TypeExpr))
      (harguments : ∀ p ∈ arguments, Spells d .type .closed p.1 p.2) :
      Spells d .primary .closed
        (.name name :: .less :: (separate .comma (arguments.map (·.1)) ++ [.greater]))
        (.generic l name (arguments.map (·.2)))
  | parens {d ts e} (h : Spells d .type .closed ts e) :
      Spells d .primary .closed (.openParen :: (ts ++ [.closeParen])) e
  | record {d} (l : Location) (fields : List (List Token × Field TypeExpr)) (trailing : Bool)
      (names : ∀ p ∈ fields, Text.isDotted p.2.name = false)
      (hfields : ∀ p ∈ fields, Spells d .type .closed p.1 p.2.type) :
      Spells d .primary .closed
        (.openBracket :: (entryTokens (fields.map fun p => fieldHead p.2 ++ p.1) trailing ++
          [.closeBracket]))
        (.record l (fields.map (·.2)))
  | function {d ts e} (l : Location) (params : List (List Token × FunctionParam TypeExpr))
      (trailing : Bool) (names : ∀ p ∈ params, p.2.Named)
      (hparams : ∀ p ∈ params, Spells d .type .closed p.1 p.2.type)
      (hresult : Spells d .type .closed ts e) :
      Spells d .primary .result
        (.openParen :: (entryTokens (params.map fun p => functionParamHead p.2 ++ p.1) trailing ++
          .closeParen :: .arrow :: ts))
        (.function l (params.map (·.2)) e)
  | template {d ts e} (l : Location) (params : List (List Token × TemplateParam TypeExpr))
      (trailing : Bool) (names : ∀ p ∈ params, p.2.Named)
      (hparams : ∀ p ∈ params, Spells d .type .closed p.1 p.2.type)
      (hresult : Spells d .type .closed ts e) :
      Spells d .primary .result
        (.name "template" :: .openParen ::
          (entryTokens (params.map fun p => templateParamHead p.2 ++ p.1) trailing ++
            .closeParen :: .arrow :: ts))
        (.template l (params.map (·.2)) e)

section Keywords
variable {name : String} {value : Literal}

theorem keywordLiteral_eq_some_iff :
    Parse.keywordLiteral name = some value ↔ (name, value) ∈ keywords := by
  constructor
  · intro h
    unfold Parse.keywordLiteral at h
    split at h
    next hname => cases h; simp [keywords, hname]
    split at h
    next hname => cases h; simp [keywords, hname]
    split at h
    next hname =>
      cases h
      rcases hname with rfl | rfl <;> decide
    next => cases h
  · simp only [keywords, List.mem_cons, List.not_mem_nil, or_false, Prod.mk.injEq]
    rintro (⟨rfl, rfl⟩ | ⟨rfl, rfl⟩ | ⟨rfl, rfl⟩ | ⟨rfl, rfl⟩) <;> rfl

theorem keywordLiteral_eq_none_iff :
    Parse.keywordLiteral name = none ↔ name ∉ keywords.map (·.1) := by
  constructor
  · intro h hmem
    obtain ⟨⟨_, value⟩, hkeyword, rfl⟩ := List.mem_map.1 hmem
    rw [keywordLiteral_eq_some_iff.2 hkeyword] at h
    cases h
  · intro h
    cases hvalue : Parse.keywordLiteral name with
    | none => rfl
    | some value => exact absurd (List.mem_map_of_mem (keywordLiteral_eq_some_iff.1 hvalue)) h

end Keywords

end TemplateCheck.TypeExpr
