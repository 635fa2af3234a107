import TemplateCheck.Text.ParameterList
import TemplateCheck.Proofs.TypeExpr.Grammar
import TemplateCheck.Proofs.TypeExpr.Parts
import TemplateCheck.Proofs.TypeExpr.Scanning

/-! The tokens of separated texts, of parameter lists and of single fields and parameters. -/

namespace TemplateCheck.TypeExpr
variable {ts us : List Token}

def Breaks (text : String) : Prop :=
  ∃ c tail, text.toList = c :: tail ∧ isAttributePart c = false ∧ c ≠ '.'

theorem Breaks.ends {text : String} (h : Breaks text) (rest : List Char) :
    Ends (text.toList ++ rest) := by
  obtain ⟨c, tail, htext, hpart, hdot⟩ := h
  intro d hd
  rw [htext] at hd
  obtain rfl : c = d := by simpa using hd
  exact ⟨(Bool.or_eq_false_iff.1 hpart).1, hdot⟩

theorem breaks_typeMark (optional : Bool) : Breaks (Text.typeMark optional) := by
  cases optional
  · exact ⟨':', [' '], by decide⟩
  · exact ⟨'?', [':', ' '], by decide⟩

theorem entryTokens_false (items : List (List Token)) :
    entryTokens items false = separate .comma items := by simp [entryTokens, commaEnd]

namespace Written
variable {F G : List Char → Prop} {a b : String}

theorem then_break (ha : Written Ends a ts) (hb : Written G b us) (h : Breaks b) :
    Written G (a ++ b) (ts ++ us) := ha.append hb fun rest _ => h.ends rest

theorem exists_scan (h : Written Ends a ts) :
    ∃ placed, scan a.toList = .ok placed ∧ placed.map (·.token) = ts := by
  obtain ⟨placed, hscan, hts⟩ :=
    h [] [] (fun c hc => nomatch hc) .nil a.toList.length 0 (by simp)
  rw [List.append_nil] at hscan hts
  exact ⟨placed, hscan, hts⟩

theorem space : Written Free " " [] := blank (by decide)

theorem newline : Written Free "\n" [] := blank (by decide)

theorem indent : Written Free "\n  " [] := by
  have hindent := newline.free_append (space.free_append space)
  exact hindent

theorem parens (h : Written Ends a ts) :
    Written Free ("(" ++ a ++ ")") (.openParen :: (ts ++ [.closeParen])) := by
  have hopen : Written Free "(" [.openParen] := symbol '(' (by decide) rfl
  have hclose : Written Free ")" [.closeParen] := symbol ')' (by decide) rfl
  rw [String.append_assoc]
  exact hopen.free_append (h.then_break hclose ⟨')', [], by decide⟩)

section Lists
variable {γ : Type} {text : γ → String} {tokens : γ → List Token} {items : List γ}

theorem join {separator : String} {t : Token} (hsep : Written Free separator [t])
    (hbreak : Breaks separator) (h : ∀ i ∈ items, Written Ends (text i) (tokens i)) :
    Written Ends (Text.joinWith separator (items.map text)) (separate t (items.map tokens)) := by
  induction items with
  | nil => exact empty
  | cons i items ih =>
    have hi := h i (List.mem_cons_self ..)
    cases items with
    | nil => exact hi
    | cons j items =>
      have hrest := ih fun k hk => h k (List.mem_cons_of_mem _ hk)
      have hjoin := (hi.then_break hsep hbreak).free_append hrest
      rw [List.append_assoc] at hjoin
      exact hjoin

theorem comma : Written Free "," [.comma] := symbol ',' (by decide) rfl

theorem commaList (h : ∀ i ∈ items, Written Ends (text i) (tokens i)) :
    Written Ends (Text.commaList (items.map text)) (separate .comma (items.map tokens)) := by
  have hcomma := comma.free_append space
  exact join hcomma ⟨',', [' '], by decide⟩ h

theorem parameterList (h : ∀ i ∈ items, Written Ends (text i) (tokens i)) :
    Written Free (Text.parameterList (items.map text))
      (.openParen :: (entryTokens (items.map tokens) false ++ [.closeParen])) := by
  rw [entryTokens_false, Text.parameterList]
  split
  · exact (commaList h).parens
  · have hcomma := comma.free_append indent
    have hlines : Written Ends (Text.joinWith ",\n  " (items.map text))
        (separate .comma (items.map tokens)) := join hcomma ⟨',', ['\n', ' ', ' '], by decide⟩ h
    have hparen : Written Free "(" [.openParen] := symbol '(' (by decide) rfl
    have hparen' : Written Free ")" [.closeParen] := symbol ')' (by decide) rfl
    have hopen := hparen.free_append indent
    have hclose := newline.free_append hparen'
    rw [String.append_assoc]
    exact hopen.free_append (hlines.then_break hclose ⟨'\n', [')'], by decide⟩)

end Lists

theorem typeMark (optional : Bool) :
    Written Free (Text.typeMark optional) (optionalMark optional ++ [.colon]) := by
  have hcolon : Written Free ":" [.colon] := symbol ':' (by decide) rfl
  have hquestion : Written Free "?" [.question] := symbol '?' (by decide) rfl
  have hrequired := hcolon.free_append space
  have hoptional := hquestion.free_append hrequired
  cases optional with
  | false => exact hrequired
  | true => exact hoptional

theorem variadicMark (variadic : Bool) :
    Written Free (Text.variadicMark variadic) (if variadic then [.ellipsis] else []) := by
  cases variadic with
  | false => exact empty
  | true => exact ellipsis

theorem result : Written Free " => " [.arrow] := by
  have harrow : Written Free "=>" [.arrow] := arrow
  have hspaced := space.free_append (harrow.free_append space)
  exact hspaced

end Written

def IsPlainName (text : String) : Prop := IsIdentifier text.toList

instance : DecidablePred IsPlainName := fun _ => inferInstanceAs (Decidable (IsIdentifier _))

theorem splitAtChar_of_not_mem {separator : Char} {cs : List Char} (h : separator ∉ cs) :
    Text.splitAtChar separator cs = [cs] := by
  induction cs with
  | nil => rfl
  | cons c cs ih =>
    rw [List.mem_cons, not_or] at h
    rw [Text.splitAtChar, if_neg (Ne.symm h.1), ih h.2]

theorem IsIdentifier.dot_not_mem {cs : List Char} (h : IsIdentifier cs) : '.' ∉ cs := by
  intro hdot
  have hpart := h.isNamePart hdot
  exact absurd hpart (by decide)

theorem IsPlainName.isDotted {text : String} (h : IsPlainName text) :
    Text.isDotted text = false := by
  simpa [Text.isDotted] using h.dot_not_mem

theorem IsPlainName.dotted {text : String} (h : IsPlainName text) : IsDottedName text := by
  intro part hpart
  rw [splitAtChar_of_not_mem h.dot_not_mem, List.mem_singleton] at hpart
  rw [hpart]
  exact h

def TemplateParam.Spelled (p : TemplateParam TypeExpr) : Prop :=
  match p.kind with
  | .regular => p.name = p.spelling ∧ IsPlainName p.spelling
  | .htmlAttribute =>
    ∃ text, p.spelling = "@" ++ text ∧ p.name = ParameterName.ofAttribute text ∧
      IsAttributeName text

def FunctionParam.Spelled (p : FunctionParam TypeExpr) : Prop :=
  p.name = p.spelling ∧ IsPlainName p.spelling

theorem TemplateParam.Spelled.named {p : TemplateParam TypeExpr} (h : p.Spelled) : p.Named := by
  unfold TemplateParam.Spelled at h
  unfold TemplateParam.Named
  cases hkind : p.kind with
  | regular =>
    rw [hkind] at h
    obtain ⟨hname, hplain⟩ := h
    exact And.intro hname hplain.isDotted
  | htmlAttribute =>
    rw [hkind] at h
    obtain ⟨text, hspelling, hname, -⟩ := h
    exact Exists.intro text ⟨hspelling, hname⟩

theorem FunctionParam.Spelled.named {p : FunctionParam TypeExpr} (h : p.Spelled) : p.Named :=
  ⟨h.1, h.2.isDotted⟩

namespace Written

theorem field {f : Field TypeExpr} (hname : IsPlainName f.name)
    (htype : Written Ends f.type.print ts) : Written Ends (fieldText f) (fieldHead f ++ ts) := by
  have hhead := (name hname.dotted).then_break (typeMark f.optional) (breaks_typeMark _)
  exact hhead.free_append htype

theorem functionParam {p : FunctionParam TypeExpr} (hname : IsPlainName p.spelling)
    (htype : Written Ends p.type.print ts) :
    Written Ends (functionParamText p) (functionParamHead p ++ ts) := by
  have hhead := (name hname.dotted).then_break (typeMark false) (breaks_typeMark _)
  have hall := ((variadicMark p.variadic).free_append hhead).free_append htype
  rw [← String.append_assoc] at hall
  exact hall

theorem paramToken {p : TemplateParam TypeExpr} (h : p.Spelled) :
    Written (fun rest => Ends rest ∧ ∀ c ∈ rest.head?, isAttributePart c = false) p.spelling
      [paramToken p] := by
  unfold TemplateParam.Spelled at h
  unfold TypeExpr.paramToken
  cases hkind : p.kind with
  | regular =>
    rw [hkind] at h
    obtain ⟨-, hplain⟩ := h
    exact (name hplain.dotted).mono fun rest hrest => hrest.1
  | htmlAttribute =>
    rw [hkind] at h
    obtain ⟨text, hspelling, -, htext⟩ := h
    have hdrop : String.ofList (p.spelling.toList.drop 1) = text := by
      rw [hspelling, String.toList_append]
      exact String.ofList_toList
    simp only [hdrop]
    rw [hspelling]
    exact (attributeName htext).mono fun rest hrest => hrest.2

theorem templateParam {p : TemplateParam TypeExpr} (hname : p.Spelled)
    (htype : Written Ends p.type.print ts) :
    Written Ends (templateParamText p) (templateParamHead p ++ ts) := by
  have hhead := (paramToken hname).append (typeMark (!p.required)) fun rest _ => by
    refine ⟨(breaks_typeMark _).ends rest, fun c hc => ?_⟩
    obtain ⟨d, tail, hmark, hpart, -⟩ := breaks_typeMark (!p.required)
    rw [hmark] at hc
    obtain rfl : d = c := by simpa using hc
    exact hpart
  exact hhead.free_append htype

section Expressions
variable {γ : Type} {text : γ → String} {tokens : γ → List Token} {items : List γ}

theorem generic {head : String} (hname : IsDottedName head)
    (h : ∀ i ∈ items, Written Ends (text i) (tokens i)) :
    Written Free (head ++ "<" ++ Text.commaList (items.map text) ++ ">")
      (.name head :: .less :: (separate .comma (items.map tokens) ++ [.greater])) := by
  have hless : Written Free "<" [.less] := symbol '<' (by decide) rfl
  have hgreater : Written Free ">" [.greater] := symbol '>' (by decide) rfl
  have hlist := (commaList h).then_break hgreater ⟨'>', [], by decide⟩
  have hall := ((name hname).then_break hless ⟨'<', [], by decide⟩).free_append hlist
  rw [String.append_assoc]
  exact hall

theorem record (h : ∀ i ∈ items, Written Ends (text i) (tokens i)) :
    Written Free ("[" ++ Text.commaList (items.map text) ++ "]")
      (.openBracket :: (entryTokens (items.map tokens) false ++ [.closeBracket])) := by
  have hopen : Written Free "[" [.openBracket] := symbol '[' (by decide) rfl
  have hclose : Written Free "]" [.closeBracket] := symbol ']' (by decide) rfl
  have hlist := (commaList h).then_break hclose ⟨']', [], by decide⟩
  rw [String.append_assoc, entryTokens_false]
  exact hopen.free_append hlist

theorem function {resultText : String} (h : ∀ i ∈ items, Written Ends (text i) (tokens i))
    (hresult : Written Ends resultText ts) :
    Written Ends (Text.parameterList (items.map text) ++ " => " ++ resultText)
      (.openParen :: (entryTokens (items.map tokens) false ++ .closeParen :: .arrow :: ts)) := by
  have hall := (parameterList h).free_append (result.free_append hresult)
  rw [String.append_assoc]
  simpa using hall

theorem template {resultText : String} (h : ∀ i ∈ items, Written Ends (text i) (tokens i))
    (hresult : Written Ends resultText ts) :
    Written Ends ("template " ++ Text.parameterList (items.map text) ++ " => " ++ resultText)
      (.name "template" :: .openParen ::
        (entryTokens (items.map tokens) false ++ .closeParen :: .arrow :: ts)) := by
  have hkeyword : IsPlainName "template" := by decide
  have hspaced := (name hkeyword.dotted).then_break space ⟨' ', [], by decide⟩
  have hopen : Written Free "template " [.name "template"] := hspaced
  have hall := hopen.free_append (function h hresult)
  simpa only [String.append_assoc, List.singleton_append] using hall

theorem union (h : ∀ i ∈ items, Written Ends (text i) (tokens i)) :
    Written Ends (Text.joinWith "|" (items.map text)) (separate .bar (items.map tokens)) := by
  have hbar : Written Free "|" [.bar] := symbol '|' (by decide) rfl
  exact join hbar ⟨'|', [], by decide⟩ h

theorem intersection (h : ∀ i ∈ items, Written Ends (text i) (tokens i)) :
    Written Ends (Text.joinWith " & " (items.map text))
      (separate .ampersand (items.map tokens)) := by
  have hsign : Written Free "&" [.ampersand] := symbol '&' (by decide) rfl
  have hspaced := space.free_append (hsign.free_append space)
  have hampersand : Written Free " & " [.ampersand] := hspaced
  exact join hampersand ⟨' ', ['&', ' '], by decide⟩ h

end Expressions

end Written

end TemplateCheck.TypeExpr
