/-!
Source locations: byte ranges in a file. They are carried by nodes and shown in diagnostics, and
never take part in structural equality.
-/

namespace TemplateCheck

/-- The bytes from `start` up to, and without, `stop`. Nodes that were made without a source text
have no file. -/
structure Location where
  file : Option String
  start : Nat
  stop : Nat
deriving DecidableEq, Repr

namespace Location

def unknown : Location := ⟨none, 0, 0⟩

def isKnown (l : Location) : Bool := l.file.isSome

def length (l : Location) : Nat := l.stop - l.start

def isEmpty (l : Location) : Bool := l.start == l.stop

def path (l : Location) : String := l.file.getD ""

/-- The smallest range covering both; locations in different files are not merged. -/
def extend (l m : Location) : Location :=
  if l.file = m.file then ⟨l.file, min l.start m.start, max l.stop m.stop⟩ else l

def display (l : Location) : String :=
  l.file.getD "<unknown>" ++ ":" ++ toString l.start ++ "-" ++ toString l.stop

end Location
end TemplateCheck
