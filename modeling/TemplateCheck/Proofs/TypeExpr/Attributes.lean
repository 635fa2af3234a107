import TemplateCheck.Proofs.ParameterName
import TemplateCheck.Proofs.TypeExpr.Parsed

/-! Attributes as types show them. A type keeps the name of a parameter only, and shows the
attribute that is written for it. This is scanned as one attribute of the same parameter, unless the
attribute of the source begins with an upper-case letter; then a hyphen follows the `@`, and no token
starts there. -/

namespace TemplateCheck.TypeExpr
open ParameterName

variable {a : String} {cs rest : List Char} {placed : List PlacedToken} {p : PlacedToken}

/-- The attribute that is shown for the parameter of an attribute. -/
def shownAttribute (a : String) : String := "@" ++ toAttribute (ofAttribute a)

/-- The text is one attribute of the parameter. -/
def ReadsAsAttribute (text parameter : String) : Prop :=
  ∃ p a, scan text.toList = .ok [p] ∧ p.token = .attributeName a ∧ ofAttribute a = parameter

theorem scan_attributeName (h : IsAttributeName a) :
    ∃ p, scan ("@" ++ a).toList = .ok [p] ∧ p.token = .attributeName a := by
  have hscans : Scans (("@" ++ a).toList ++ []) ([.attributeName a] ++ []) :=
    Written.attributeName h [] [] nofun .nil
  rw [List.append_nil] at hscans
  exact hscans.single

theorem scan_at (h : startsWith isNameStart rest = false) :
    scan ('@' :: rest) = .error ⟨.unexpected .type "@", 0, 1⟩ := by
  have hlexeme : lexeme '@' rest = .error .unexpected := by
    have hsymbol : symbols.lookup '@' = none := by decide
    have hstart : isNameStart '@' = false := by decide
    simp [lexeme, hsymbol, hstart, h]
  have hblank : ¬ Text.isBlank '@' := by decide
  rw [scan, List.length_cons, scanFrom, if_neg hblank, hlexeme]
  rfl

theorem isAttributeName_of_scan (h : scan cs = .ok placed) (hp : p ∈ placed)
    (ha : p.token = .attributeName a) : IsAttributeName a := by
  have hlexical := lexical_of_scanFrom h p hp
  rwa [ha] at hlexical

theorem startsWith_ofAttribute (h : IsAttributeName a) (test : Char → Bool) :
    startsWith test (ofAttribute a).toList = startsWith test a.toList := by
  obtain ⟨c, tail, htext, hc, -⟩ := h
  have hhyphen : c ≠ '-' := ne_hyphen (isNamePart_of_isNameStart hc)
  rw [ofAttribute, String.toList_ofList, htext, camelCaseFrom, if_neg hhyphen]
  rfl

theorem readsAs_shownAttribute (h : IsAttributeName a)
    (hlower : startsWith Char.isUpper a.toList = false) :
    ReadsAsAttribute (shownAttribute a) (ofAttribute a) := by
  have hname : IsAttributeName (toAttribute (ofAttribute a)) := by
    refine isAttributeName_toAttribute (isIdentifier_ofAttribute h) fun c hc => ?_
    rw [← startsWith_ofAttribute h, startsWith, hc] at hlower
    exact hlower
  obtain ⟨p, hp, htoken⟩ := scan_attributeName hname
  exact ⟨p, _, hp, htoken, ofAttribute_toAttribute (hyphen_not_mem_ofAttribute a)⟩

theorem scan_shownAttribute (h : IsAttributeName a) (hupper : startsWith Char.isUpper a.toList) :
    scan (shownAttribute a).toList = .error ⟨.unexpected .type "@", 0, 1⟩ := by
  have hshown : (shownAttribute a).toList = '@' :: (ofAttribute a).toList.flatMap hyphenate := by
    simp [shownAttribute, toAttribute]
  rw [← startsWith_ofAttribute h] at hupper
  rw [hshown]
  cases hname : (ofAttribute a).toList with
  | nil =>
    rw [hname] at hupper
    cases hupper
  | cons c tail =>
    rw [hname] at hupper
    have hc : c.isUpper := by simpa [startsWith] using hupper
    rw [List.flatMap_cons, hyphenate, if_pos hc]
    exact scan_at rfl

/-- What is shown for a scanned attribute is read back exactly if the attribute does not begin with
an upper-case letter; otherwise it is refused at the `@`. -/
theorem readsAs_shownAttribute_iff (h : scan cs = .ok placed) (hp : p ∈ placed)
    (ha : p.token = .attributeName a) :
    (ReadsAsAttribute (shownAttribute a) (ofAttribute a) ↔
        startsWith Char.isUpper a.toList = false) ∧
      (scan (shownAttribute a).toList = .error ⟨.unexpected .type "@", 0, 1⟩ ↔
        startsWith Char.isUpper a.toList) := by
  have hname := isAttributeName_of_scan h hp ha
  cases hstart : startsWith Char.isUpper a.toList with
  | false =>
    have hreads := readsAs_shownAttribute hname hstart
    refine ⟨iff_of_true hreads rfl, iff_of_false ?_ nofun⟩
    obtain ⟨q, b, hscan, -⟩ := hreads
    rw [hscan]
    exact nofun
  | true =>
    have hscan := scan_shownAttribute hname hstart
    refine ⟨iff_of_false ?_ nofun, iff_of_true hscan rfl⟩
    rintro ⟨q, b, hok, -⟩
    cases hscan.symm.trans hok

theorem readsAs_shownAttribute_iff_itemId :
    ∃ placed, scan "template (@item--Id?: int) => html".toList = .ok placed ∧
      (∃ p ∈ placed, p.token = .attributeName "item--Id") ∧
      shownAttribute "item--Id" = "@item-id" ∧
      ReadsAsAttribute (shownAttribute "item--Id") "itemId" := by
  have htokens : (scan "template (@item--Id?: int) => html".toList).toOption.map (fun placed =>
      placed.any fun p => p.token = .attributeName "item--Id") = some true := by decide
  cases h : scan "template (@item--Id?: int) => html".toList with
  | error fault =>
    rw [h] at htokens
    cases htokens
  | ok placed =>
    rw [h] at htokens
    obtain ⟨p, hp, htoken⟩ := List.any_eq_true.1 (Option.some.inj htokens)
    have ha : p.token = .attributeName "item--Id" := of_decide_eq_true htoken
    have hreads := (readsAs_shownAttribute_iff h hp ha).1.2 (by decide)
    exact ⟨placed, rfl, ⟨p, hp, ha⟩, by decide, hreads⟩

theorem shownAttribute_capital_refused :
    scan "@Data".toList = .ok [⟨.attributeName "Data", 0, 5⟩] ∧ shownAttribute "Data" = "@-data" ∧
      ¬ ReadsAsAttribute (shownAttribute "Data") (ofAttribute "Data") := by
  have hscan : scan (shownAttribute "Data").toList = .error ⟨.unexpected .type "@", 0, 1⟩ := rfl
  refine ⟨rfl, by decide, ?_⟩
  rintro ⟨q, b, hok, -⟩
  cases hscan.symm.trans hok

end TemplateCheck.TypeExpr
