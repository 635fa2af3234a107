/-!
Names made of segments with dots between them.
-/

namespace TemplateCheck.Text

def splitAtChar (separator : Char) : List Char → List (List Char)
  | [] => [[]]
  | c :: rest =>
    if c = separator then [] :: splitAtChar separator rest
    else match splitAtChar separator rest with
      | [] => [[c]]
      | part :: parts => (c :: part) :: parts

def segments (name : String) : List String :=
  (splitAtChar '.' name.toList).map String.ofList

def joinSegments (parts : List String) : String := ".".intercalate parts

def isDotted (name : String) : Bool := name.toList.contains '.'

end TemplateCheck.Text
