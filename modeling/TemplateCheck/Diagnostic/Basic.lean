import TemplateCheck.Diagnostic.Placeholder
import TemplateCheck.Location

/-!
What is said about a template file: the known messages with their codes, single diagnostics, and
the list of diagnostics that a run collects. Reporting never stops a run.
-/

namespace TemplateCheck

/-- The known messages. Codes from 1001 on belong to the syntax and the resolution of types, codes
from 2001 on to checks of templates. -/
inductive Message where
  | typeSyntaxError
  | unknownType
  | notGeneric
  | unexpectedTypeParameters
  | genericArity
  | duplicateRecordField
  | duplicateTemplateParameter
  | duplicateFunctionParameter
  | unsupportedLiteral
  | noSuchProperty
  | notIndexable
  | typeTooDeep
  | badTemplateReturn
  | elementTagExpected
  | keyOutsideOpenTag
  | keyAttribute
  | unsupportedKeyType
  | ambiguousKeyElement
  | unsupportedAttributeKey
  | duplicateNamespace
  | duplicateNamespaceWarning
  | namespaceCollision
deriving DecidableEq, Repr

namespace Message

def all : List Message :=
  [typeSyntaxError, unknownType, notGeneric, unexpectedTypeParameters, genericArity,
    duplicateRecordField, duplicateTemplateParameter, duplicateFunctionParameter,
    unsupportedLiteral, noSuchProperty, notIndexable, typeTooDeep, badTemplateReturn,
    elementTagExpected, keyOutsideOpenTag, keyAttribute, unsupportedKeyType, ambiguousKeyElement,
    unsupportedAttributeKey, duplicateNamespace, duplicateNamespaceWarning, namespaceCollision]

def code : Message → Nat
  | typeSyntaxError => 1001
  | unknownType => 1002
  | notGeneric => 1003
  | unexpectedTypeParameters => 1004
  | genericArity => 1005
  | duplicateRecordField => 1006
  | duplicateTemplateParameter => 1007
  | duplicateFunctionParameter => 1008
  | unsupportedLiteral => 1009
  | noSuchProperty => 1010
  | notIndexable => 1011
  | typeTooDeep => 1012
  | badTemplateReturn => 1013
  | elementTagExpected => 1014
  | keyOutsideOpenTag => 2001
  | keyAttribute => 2002
  | unsupportedKeyType => 2003
  | ambiguousKeyElement => 2004
  | unsupportedAttributeKey => 2005
  | duplicateNamespace => 2006
  | duplicateNamespaceWarning => 2007
  | namespaceCollision => 2008

def template : Message → String
  | typeSyntaxError => "Expected \x7b0\x7d, found '\x7b1\x7d'."
  | unknownType => "Unknown type '\x7b0\x7d'."
  | notGeneric =>
    "'\x7b0\x7d' is not a generic type. Expected one of: list, set, map, iterable, " ++
      "legacy_object_map, html."
  | unexpectedTypeParameters => "Type '\x7b0\x7d' does not take type parameters."
  | genericArity => "Expected \x7b1\x7d type parameter(s) for '\x7b0\x7d', found \x7b2\x7d."
  | duplicateRecordField => "Duplicate field '\x7b0\x7d' in record type."
  | duplicateTemplateParameter => "Duplicate parameter '\x7b0\x7d' in template type."
  | duplicateFunctionParameter => "Duplicate parameter '\x7b0\x7d' in function type."
  | unsupportedLiteral =>
    "Literal '\x7b0\x7d' is not a valid type. Only string literals, 'null' and 'undefined' " ++
      "are supported."
  | noSuchProperty => "Type '\x7b0\x7d' has no property '\x7b1\x7d'."
  | notIndexable => "Indexed access is not supported on type '\x7b0\x7d'."
  | typeTooDeep => "Type expression is nested more than \x7b0\x7d levels deep."
  | badTemplateReturn =>
    "Template types must return a sanitized content kind or string, found '\x7b0\x7d'."
  | elementTagExpected =>
    "Expected an HTML tag name, '?' or 'any' in 'html<...>', found '\x7b0\x7d'."
  | keyOutsideOpenTag =>
    "The `key` command must be directly nested within an HTML open tag " ++
      "(e.g. `<div \x7bkey 'foo'\x7d></div>`)."
  | keyAttribute => "The key attribute is deprecated. Instead, use the \x7bkey\x7d command."
  | unsupportedKeyType => "Unsupported type: keys must be of type string or integer."
  | ambiguousKeyElement =>
    "Key elements must have open tags that map to a single HTML close tag and vice versa."
  | unsupportedAttributeKey =>
    "Unsupported attribute '\x7b0\x7d' for '\x7b1\x7d' tag, expected one of [\x7b2\x7d]."
  | duplicateNamespace =>
    "Found another file '\x7b0\x7d' with the same namespace. All files must have unique namespaces."
  | duplicateNamespaceWarning =>
    "Found another file '\x7b0\x7d' with the same namespace. All files should have unique " ++
      "namespaces. This will soon become an error."
  | namespaceCollision =>
    "Template '\x7b0\x7d' collides with namespace '\x7b1\x7d' declared in '\x7b2\x7d'."

def ofCode? (code : Nat) : Option Message := all.find? (·.code == code)

theorem ofCode?_code (m : Message) : ofCode? m.code = some m := by
  cases m <;> rfl

end Message

inductive Severity where
  | warning
  | error
deriving DecidableEq, Repr

structure Diagnostic where
  file : String
  start : Nat
  length : Nat
  text : String
  severity : Severity
  code : Nat
deriving DecidableEq, Repr

namespace Diagnostic

def isError (d : Diagnostic) : Bool := d.severity == .error

def of (severity : Severity) (at_ : Location) (message : Message) (arguments : List String) :
    Diagnostic :=
  ⟨at_.path, at_.start, at_.length, fill message.template arguments, severity, message.code⟩

end Diagnostic

/-- The diagnostics of a run, in the order of their reports. -/
structure Report where
  diagnostics : List Diagnostic
deriving DecidableEq, Repr

namespace Report

def empty : Report := ⟨[]⟩

def add (r : Report) (d : Diagnostic) : Report := ⟨r.diagnostics ++ [d]⟩

def error (r : Report) (l : Location) (message : Message) (arguments : List String) : Report :=
  r.add (.of .error l message arguments)

def warning (r : Report) (l : Location) (message : Message) (arguments : List String) : Report :=
  r.add (.of .warning l message arguments)

def errors (r : Report) : List Diagnostic := r.diagnostics.filter (·.isError)

def warnings (r : Report) : List Diagnostic := r.diagnostics.filter (!·.isError)

def hasErrors (r : Report) : Bool := r.diagnostics.any (·.isError)

structure Checkpoint where
  position : Nat
deriving DecidableEq, Repr

def checkpoint (r : Report) : Checkpoint := ⟨r.diagnostics.length⟩

def errorsSince (r : Report) (c : Checkpoint) : Bool :=
  (r.diagnostics.drop c.position).any (·.isError)

end Report
end TemplateCheck
