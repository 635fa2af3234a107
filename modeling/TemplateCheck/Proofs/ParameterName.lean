import TemplateCheck.ParameterName
import TemplateCheck.Proofs.TypeExpr.Scanning

/-! Attributes and the parameters that they name. Each of the two conversions undoes the other where
it can: on parameters without hyphens, and on attributes in lower case whose hyphens each stand in
front of a letter. The attribute written for a parameter is an attribute name, unless it would begin
with a hyphen. -/

namespace TemplateCheck.ParameterName
open TypeExpr

section Characters
variable {c : Char}

theorem of_ascii {P : Char → Prop} (h : ∀ n : Fin 128, P (Char.ofNat n)) (hc : c.toNat < 128) :
    P c := by
  have hn := h ⟨c.toNat, hc⟩
  rwa [Char.ofNat_toNat] at hn

theorem isNamePart_toUpper (h : isNamePart c) : isNamePart c.toUpper := by
  have hrange := toNat_of_isNamePart h
  revert h
  exact of_ascii (P := fun c => isNamePart c → isNamePart c.toUpper) (by decide) (by omega)

theorem toLower_of_isUpper (h : c.isUpper) :
    c.toLower.isLower ∧ isNamePart c.toLower ∧ c.toLower.toUpper = c := by
  have hrange : c.toNat ≤ 90 := (of_decide_eq_true h).2
  revert h
  exact of_ascii (P := fun c => c.isUpper →
    c.toLower.isLower ∧ isNamePart c.toLower ∧ c.toLower.toUpper = c) (by decide) (by omega)

theorem toNat_of_isLower (h : c.isLower) : c.toNat ≤ 122 :=
  of_decide_eq_true (Bool.and_eq_true_iff.1 h).2

theorem toUpper_of_isLower (h : c.isLower) :
    c.isUpper = false ∧ c.toUpper.isUpper ∧ c.toUpper.toLower = c := by
  have hrange := toNat_of_isLower h
  revert h
  exact of_ascii (P := fun c => c.isLower →
    c.isUpper = false ∧ c.toUpper.isUpper ∧ c.toUpper.toLower = c) (by decide) (by omega)

theorem ne_hyphen (h : isNamePart c) : c ≠ '-' := ne_of_test h (by decide)

theorem isAttributePart_of_isNamePart (h : isNamePart c) : isAttributePart c := by
  simp [isAttributePart, h]

theorem upperCase_of_ascii (h : c.toNat < 128) : Text.upperCase c = [c.toUpper] := if_pos h

theorem upperCase_of_isNamePart (h : isNamePart c) : Text.upperCase c = [c.toUpper] := by
  have hrange := toNat_of_isNamePart h
  exact upperCase_of_ascii (by omega)

theorem upperCase_toLower (h : c.isUpper) : Text.upperCase c.toLower = [c] := by
  obtain ⟨-, hpart, hback⟩ := toLower_of_isUpper h
  rw [upperCase_of_isNamePart hpart, hback]

theorem upperCase_of_isLower (h : c.isLower) : Text.upperCase c = [c.toUpper] := by
  have hrange := toNat_of_isLower h
  exact upperCase_of_ascii (by omega)

theorem eq_of_ofNat_eq_hyphen {code : Nat} (h : Char.ofNat code = '-') : code = 45 := by
  by_cases hvalid : code.isValidChar
  · rw [Char.ofNat, dif_pos hvalid] at h
    exact congrArg Char.toNat h
  · rw [Char.ofNat, dif_neg hvalid] at h
    exact absurd h (by decide)

theorem hyphen_not_mem_upperCase (h : c ≠ '-') : '-' ∉ Text.upperCase c := by
  rw [Text.upperCase]
  split
  next hascii =>
    have hupper : c ≠ '-' → c.toUpper ≠ '-' :=
      of_ascii (P := fun c => c ≠ '-' → c.toUpper ≠ '-') (by decide) hascii
    exact mt List.mem_singleton.1 (hupper h).symm
  next =>
    split
    next codes hcodes =>
      have hall : ∀ p ∈ Text.upperExpansions, '-' ∉ p.2.map Char.ofNat := by decide
      obtain ⟨before, after, hsplit, -⟩ := List.lookup_eq_some_iff.1 hcodes
      exact hall (c.toNat, codes) (by simp [hsplit])
    next =>
      split
      next run hrun =>
        have hall : (Text.upperRuns.all fun run => 45 < run.first + run.shift) := by decide
        have hbeyond := of_decide_eq_true
          (List.all_eq_true.1 hall run (List.mem_of_find?_eq_some hrun))
        have hfirst : run.first ≤ c.toNat := by
          have hcontains := List.find?_some hrun
          simp only [Text.CaseRun.contains, Bool.and_eq_true, decide_eq_true_eq] at hcontains
          exact hcontains.1.1
        rw [List.mem_singleton]
        intro heq
        have hcode := eq_of_ofNat_eq_hyphen heq.symm
        omega
      next => exact mt List.mem_singleton.1 h.symm

end Characters

section Names
variable {cs : List Char} {name text : String}

theorem isNamePart_camelCaseFrom (h : ∀ c ∈ cs, isAttributePart c) (raise : Bool) :
    ∀ d ∈ camelCaseFrom raise cs, isNamePart d := by
  induction cs generalizing raise with
  | nil => simp [camelCaseFrom]
  | cons c cs ih =>
    obtain ⟨hc, hcs⟩ := List.forall_mem_cons.1 h
    rw [camelCaseFrom]
    split
    · exact ih hcs true
    next hhyphen =>
      have hpart : isNamePart c := by simpa [isAttributePart, hhyphen] using hc
      refine List.forall_mem_append.2 ⟨?_, ih hcs false⟩
      cases raise with
      | false => simpa using hpart
      | true =>
        rw [if_pos rfl, upperCase_of_isNamePart hpart]
        exact List.forall_mem_singleton.2 (isNamePart_toUpper hpart)

theorem isIdentifier_ofAttribute (h : IsAttributeName text) :
    IsIdentifier (ofAttribute text).toList := by
  obtain ⟨c, tail, htext, hc, htail⟩ := h
  have hhyphen : c ≠ '-' := ne_hyphen (isNamePart_of_isNameStart hc)
  refine ⟨c, camelCaseFrom false tail, ?_, hc, isNamePart_camelCaseFrom htail false⟩
  rw [ofAttribute, String.toList_ofList, htext, camelCaseFrom, if_neg hhyphen]
  rfl

theorem hyphen_not_mem_of_isIdentifier (h : IsIdentifier cs) : '-' ∉ cs := fun hmem =>
  ne_hyphen (h.isNamePart hmem) rfl

theorem isAttributePart_hyphenate {c : Char} (h : isNamePart c) :
    ∀ d ∈ hyphenate c, isAttributePart d := by
  rw [hyphenate]
  split
  next hupper =>
    obtain ⟨-, hpart, -⟩ := toLower_of_isUpper hupper
    exact List.forall_mem_cons.2 ⟨by decide,
      List.forall_mem_singleton.2 (isAttributePart_of_isNamePart hpart)⟩
  next => exact List.forall_mem_singleton.2 (isAttributePart_of_isNamePart h)

theorem isAttributeName_toAttribute (h : IsIdentifier name.toList)
    (hlower : ∀ c ∈ name.toList.head?, c.isUpper = false) : IsAttributeName (toAttribute name) := by
  obtain ⟨c, tail, hname, hc, htail⟩ := h
  have hupper : c.isUpper = false := hlower c (by simp [hname])
  refine ⟨c, tail.flatMap hyphenate, ?_, hc, fun d hd => ?_⟩
  · rw [toAttribute, String.toList_ofList, hname, List.flatMap_cons, hyphenate, hupper]
    rfl
  · obtain ⟨e, he, hd⟩ := List.mem_flatMap.1 hd
    exact isAttributePart_hyphenate (htail e he) d hd

end Names

section Inverses
variable {cs : List Char} {name text : String}

theorem hyphen_not_mem_camelCaseFrom (raise : Bool) (cs : List Char) :
    '-' ∉ camelCaseFrom raise cs := by
  induction cs generalizing raise with
  | nil => exact List.not_mem_nil
  | cons c cs ih =>
    rw [camelCaseFrom]
    split
    · exact ih true
    next hhyphen =>
      rw [List.mem_append, not_or]
      refine ⟨?_, ih false⟩
      cases raise with
      | false => exact mt List.mem_singleton.1 (Ne.symm hhyphen)
      | true => exact hyphen_not_mem_upperCase hhyphen

theorem camelCaseFrom_hyphenate (h : '-' ∉ cs) :
    camelCaseFrom false (cs.flatMap hyphenate) = cs := by
  induction cs with
  | nil => rfl
  | cons c cs ih =>
    rw [List.mem_cons, not_or] at h
    rw [List.flatMap_cons, hyphenate]
    split
    next hupper =>
      have hpart := (toLower_of_isUpper hupper).2.1
      show camelCaseFrom false ('-' :: c.toLower :: cs.flatMap hyphenate) = c :: cs
      rw [camelCaseFrom, if_pos rfl, camelCaseFrom, if_neg (ne_hyphen hpart), if_pos rfl,
        upperCase_toLower hupper, ih h.2]
      rfl
    next =>
      show camelCaseFrom false (c :: cs.flatMap hyphenate) = c :: cs
      rw [camelCaseFrom, if_neg (Ne.symm h.1), ih h.2]
      rfl

theorem ofAttribute_toAttribute (h : '-' ∉ name.toList) :
    ofAttribute (toAttribute name) = name := by
  rw [ofAttribute, toAttribute, String.toList_ofList, camelCaseFrom_hyphenate h,
    String.ofList_toList]

theorem hyphen_not_mem_ofAttribute (text : String) : '-' ∉ (ofAttribute text).toList := by
  rw [ofAttribute, String.toList_ofList]
  exact hyphen_not_mem_camelCaseFrom false text.toList

/-- The spelling of attributes that keeps apart what camel case runs together: no upper-case ASCII
letters, and after each hyphen a lower-case one at once. -/
structure Hyphenated (cs : List Char) : Prop where
  lower : ∀ c ∈ cs, c.isUpper = false
  followed : ∀ after, '-' :: after <:+ cs → startsWith Char.isLower after

namespace Hyphenated

theorem nil : Hyphenated [] where
  lower := List.forall_mem_nil _
  followed _ h := nomatch List.suffix_nil.1 h

theorem cons_iff {c : Char} : Hyphenated (c :: cs) ↔
    c.isUpper = false ∧ (c = '-' → startsWith Char.isLower cs) ∧ Hyphenated cs := by
  constructor
  · rintro ⟨hlower, hfollowed⟩
    obtain ⟨hc, hcs⟩ := List.forall_mem_cons.1 hlower
    refine ⟨hc, fun heq => hfollowed cs (heq ▸ List.suffix_refl _), hcs, fun after h => ?_⟩
    exact hfollowed after (h.trans (List.suffix_cons c cs))
  · rintro ⟨hc, hstart, hcs⟩
    refine ⟨List.forall_mem_cons.2 ⟨hc, hcs.lower⟩, fun after h => ?_⟩
    rcases List.suffix_cons_iff.1 h with heq | h
    · obtain ⟨hhyphen, rfl⟩ := List.cons.inj heq
      exact hstart hhyphen.symm
    · exact hcs.followed after h

/-- A hyphen is dropped and comes back with the letter behind it, so the text that is left is taken
together with the hyphen before it. -/
theorem flatMap_camelCaseFrom (h : Hyphenated cs) (raise : Bool)
    (hraise : raise → startsWith Char.isLower cs) :
    (camelCaseFrom raise cs).flatMap hyphenate = (if raise then ['-'] else []) ++ cs := by
  induction cs generalizing raise with
  | nil =>
    cases raise with
    | false => rfl
    | true => cases hraise rfl
  | cons c cs ih =>
    obtain ⟨hc, hstart, hcs⟩ := cons_iff.1 h
    rw [camelCaseFrom]
    split
    next hhyphen =>
      have hfalse : raise = false := Bool.eq_false_iff.2 fun htrue => by
        have hlower : c.isLower := by simpa [startsWith] using hraise htrue
        rw [hhyphen] at hlower
        exact absurd hlower (by decide)
      rw [ih hcs true fun _ => hstart hhyphen, hfalse, hhyphen]
      rfl
    next hhyphen =>
      rw [List.flatMap_append, ih hcs false (absurd · Bool.false_ne_true)]
      cases raise with
      | false => simp [hyphenate, hc]
      | true =>
        have hlower : c.isLower := by simpa [startsWith] using hraise rfl
        obtain ⟨-, hupper, hback⟩ := toUpper_of_isLower hlower
        simp [upperCase_of_isLower hlower, hyphenate, hupper, hback]

theorem flatMap_hyphenate (h : '-' ∉ cs) : Hyphenated (cs.flatMap hyphenate) := by
  induction cs with
  | nil => exact nil
  | cons c cs ih =>
    rw [List.mem_cons, not_or] at h
    rw [List.flatMap_cons, hyphenate]
    split
    next hupper =>
      have hlower := (toLower_of_isUpper hupper).1
      have hhyphen : c.toLower ≠ '-' := ne_of_test hlower (by decide)
      refine cons_iff.2 ⟨by decide, fun _ => hlower, cons_iff.2 ⟨(toUpper_of_isLower hlower).1, ?_⟩⟩
      exact ⟨fun heq => absurd heq hhyphen, ih h.2⟩
    next hupper =>
      exact cons_iff.2 ⟨Bool.eq_false_iff.2 hupper, fun heq => absurd heq.symm h.1, ih h.2⟩

end Hyphenated

theorem toAttribute_ofAttribute (h : Hyphenated text.toList) :
    toAttribute (ofAttribute text) = text := by
  have hback : (camelCaseFrom false text.toList).flatMap hyphenate = text.toList :=
    h.flatMap_camelCaseFrom false (absurd · Bool.false_ne_true)
  rw [toAttribute, ofAttribute, String.toList_ofList, hback]
  exact String.ofList_toList

/-- A parameter is what its attribute names exactly if it has no hyphens, and an attribute is what
is written for its parameter exactly if it is hyphenated. -/
theorem conversions_inverse (name text : String) :
    (ofAttribute (toAttribute name) = name ↔ '-' ∉ name.toList) ∧
      (toAttribute (ofAttribute text) = text ↔ Hyphenated text.toList) := by
  refine ⟨⟨fun h => ?_, ofAttribute_toAttribute⟩, fun h => ?_, toAttribute_ofAttribute⟩
  · rw [← h]
    exact hyphen_not_mem_ofAttribute _
  · rw [← h, toAttribute, String.toList_ofList]
    exact .flatMap_hyphenate (hyphen_not_mem_ofAttribute text)

/-- Hyphens that no letter follows are lost, and so is the case of a first letter. -/
example : toAttribute (ofAttribute "item--id-") = "item-id" ∧
    toAttribute (ofAttribute "Item-ID") = "-item-i-d" := by decide

end Inverses
end TemplateCheck.ParameterName
