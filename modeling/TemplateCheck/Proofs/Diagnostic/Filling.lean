import Mathlib.Data.List.Infix
import TemplateCheck.Diagnostic.Basic

/-! Filling the placeholders of a text. A text that is put together from literal parts and
placeholders is filled part by part, and a text in which no brace begins a placeholder stays. -/

namespace TemplateCheck.Diagnostic
variable {arguments : List String} {text inner rest template : List Char} {index : Nat}
  {argument : String} {width : Nat}

section Indices

structure Numeral (digits : List Char) (number : Nat) : Prop where
  nonempty : digits ≠ []
  digit : ∀ c ∈ digits, c.isDigit
  value : Nat.ofDigitChars 10 digits 0 = number

theorem numeral_iff {digits : List Char} {number : Nat} :
    Numeral digits number ↔
      digits ≠ [] ∧ digits.all Char.isDigit ∧ Nat.ofDigitChars 10 digits 0 = number :=
  ⟨fun h => ⟨h.nonempty, List.all_eq_true.2 h.digit, h.value⟩,
    fun h => ⟨h.1, List.all_eq_true.1 h.2.1, h.2.2⟩⟩

instance {digits : List Char} {number : Nat} : Decidable (Numeral digits number) :=
  decidable_of_iff' _ numeral_iff

/-- A numeral, maybe with a plus sign in front of it. -/
def Spells (text : List Char) (index : Nat) : Prop :=
  Numeral text index ∨ text.head? = some '+' ∧ Numeral text.tail index

instance : Decidable (Spells text index) := inferInstanceAs (Decidable (_ ∨ _))

theorem not_numeral_plus {digits : List Char} : ¬ Numeral ('+' :: digits) index := fun h =>
  absurd (h.digit '+' (List.mem_cons_self ..)) (by decide)

theorem Spells.not_mem (h : Spells text index) : '}' ∉ text := by
  have hdigits {digits : List Char} (h : Numeral digits index) : '}' ∉ digits := fun hmem =>
    absurd (h.digit '}' hmem) (by decide)
  rcases h with h | ⟨hhead, h⟩
  · exact hdigits h
  · obtain ⟨tail, rfl⟩ := List.head?_eq_some_iff.1 hhead
    rw [List.mem_cons, not_or]
    exact ⟨by decide, hdigits h⟩

theorem readIndex_eq_some_iff :
    readIndex text = some index ↔ Spells text index ∧ index < Nat.pow 2 64 := by
  have hdigits (digits : List Char) :
      (if digits.isEmpty || !digits.all Char.isDigit then none
      else if Nat.ofDigitChars 10 digits 0 < Nat.pow 2 64 then some (Nat.ofDigitChars 10 digits 0)
      else none) = some index ↔ Numeral digits index ∧ index < Nat.pow 2 64 := by
    rw [numeral_iff]
    split
    next hbad =>
      refine iff_of_false (Option.some_ne_none index).symm ?_
      rintro ⟨⟨hne, hall, -⟩, -⟩
      rw [hall, Bool.not_true, Bool.or_false] at hbad
      exact hne (List.isEmpty_iff.1 hbad)
    next hgood =>
      obtain ⟨hne, hall⟩ : digits ≠ [] ∧ digits.all Char.isDigit := by simpa using hgood
      split
      next hlt =>
        rw [Option.some_inj]
        exact ⟨fun h => ⟨⟨hne, hall, h⟩, h ▸ hlt⟩, fun h => h.1.2.2⟩
      next hge =>
        refine iff_of_false (Option.some_ne_none index).symm ?_
        rintro ⟨⟨-, -, hvalue⟩, hlt⟩
        exact hge (hvalue ▸ hlt)
  refine (hdigits _).trans (and_congr_left' ?_)
  split
  next rest =>
    exact ⟨fun h => .inr ⟨rfl, h⟩, fun h => h.elim (absurd · not_numeral_plus) And.right⟩
  next hplus =>
    refine ⟨.inl, fun h => h.elim id fun hsigned => ?_⟩
    obtain ⟨tail, rfl⟩ := List.head?_eq_some_iff.1 hsigned.1
    exact absurd rfl (hplus tail)

end Indices

section Parts

theorem fillFrom_literal (h : '{' ∉ text) :
    fillFrom arguments 0 (text ++ rest) = text ++ fillFrom arguments 0 rest := by
  induction text with
  | nil => rfl
  | cons c text ih =>
    rw [List.mem_cons, not_or] at h
    rw [List.cons_append, fillFrom, if_neg (Ne.symm h.1), ih h.2, List.cons_append]

theorem fillFrom_skip (skipped : List Char) :
    fillFrom arguments skipped.length (skipped ++ rest) = fillFrom arguments 0 rest := by
  induction skipped with
  | nil => rfl
  | cons c skipped ih => rw [List.length_cons, List.cons_append, fillFrom, ih]

theorem takeWhile_inner (h : '}' ∉ inner) :
    (inner ++ '}' :: rest).takeWhile (· != '}') = inner := by
  rw [List.takeWhile_append_of_pos]
  · simp
  · intro c hc
    simpa using ne_of_mem_of_not_mem hc h

theorem placeholder?_eq_some_iff : placeholder? arguments text = some (argument, width) ↔
    ∃ inner after index, text = inner ++ '}' :: after ∧ '}' ∉ inner ∧ width = inner.length + 1 ∧
      Spells inner index ∧ index < Nat.pow 2 64 ∧ arguments[index]? = some argument := by
  constructor
  · intro h
    unfold placeholder? at h
    dsimp only at h
    split at h
    · cases h
    next hlength =>
      obtain ⟨index, hindex, h⟩ := Option.bind_eq_some_iff.1 h
      obtain ⟨found, hargument, h⟩ := Option.bind_eq_some_iff.1 h
      cases h
      obtain ⟨hspells, hlt⟩ := readIndex_eq_some_iff.1 hindex
      have hsplit := List.takeWhile_append_dropWhile (p := (· != '}')) (l := text)
      cases hdrop : text.dropWhile (· != '}') with
      | nil =>
        rw [hdrop, List.append_nil] at hsplit
        exact absurd (congrArg List.length hsplit) hlength
      | cons c after =>
        have hc : c = '}' := by
          have hhead := List.head?_dropWhile_not (· != '}') text
          rw [hdrop] at hhead
          simpa using hhead
        rw [hdrop, hc] at hsplit
        exact ⟨_, after, index, hsplit.symm, hspells.not_mem, rfl, hspells, hlt, hargument⟩
  · rintro ⟨inner, after, index, rfl, hinner, rfl, hspells, hlt, hargument⟩
    have hindex := readIndex_eq_some_iff.2 ⟨hspells, hlt⟩
    simp [placeholder?, takeWhile_inner hinner, hindex, hargument]

theorem fillFrom_placeholder (hspells : Spells inner index) (hlt : index < Nat.pow 2 64)
    (hargument : arguments[index]? = some argument) :
    fillFrom arguments 0 ('{' :: inner ++ '}' :: rest) =
      argument.toList ++ fillFrom arguments 0 rest := by
  have hplaceholder : placeholder? arguments (inner ++ '}' :: rest) =
      some (argument, inner.length + 1) :=
    placeholder?_eq_some_iff.2
      ⟨inner, rest, index, rfl, hspells.not_mem, rfl, hspells, hlt, hargument⟩
  have hskip : fillFrom arguments (inner ++ ['}']).length (inner ++ ['}'] ++ rest) =
      fillFrom arguments 0 rest := fillFrom_skip _
  rw [List.append_assoc, List.length_append] at hskip
  rw [List.cons_append, fillFrom, if_pos rfl, hplaceholder]
  exact congrArg _ hskip

/-- A part of a template for these arguments. -/
inductive Part (arguments : List String) where
  | literal (text : String) (plain : '{' ∉ text.toList)
  | placeholder (text : String) (index : Fin arguments.length) (spells : Spells text.toList index)

namespace Part

def source : Part arguments → String
  | literal text _ => text
  | placeholder text _ _ => "\x7b" ++ text ++ "\x7d"

def filled : Part arguments → String
  | literal text _ => text
  | placeholder _ index _ => arguments[index]

theorem fillFrom_source (hsize : arguments.length ≤ Nat.pow 2 64) (part : Part arguments) :
    fillFrom arguments 0 (part.source.toList ++ rest) =
      part.filled.toList ++ fillFrom arguments 0 rest := by
  cases part with
  | literal text plain => exact fillFrom_literal plain
  | placeholder text index spells =>
    have hsource : (Part.placeholder text index spells).source.toList ++ rest =
        '{' :: text.toList ++ '}' :: rest := by simp [source]
    rw [hsource]
    exact fillFrom_placeholder spells (Nat.lt_of_lt_of_le index.isLt hsize)
      (List.getElem?_eq_getElem index.isLt)

end Part

theorem fill_parts (hsize : arguments.length ≤ Nat.pow 2 64) (parts : List (Part arguments)) :
    fill (String.join (parts.map Part.source)) arguments = String.join (parts.map Part.filled) := by
  have hparts : fillFrom arguments 0 (String.join (parts.map Part.source)).toList =
      (String.join (parts.map Part.filled)).toList := by
    induction parts with
    | nil => rfl
    | cons part parts ih =>
      rw [List.map_cons, List.map_cons, String.join_cons, String.join_cons, String.toList_append,
        String.toList_append, part.fillFrom_source hsize, ih]
  rw [fill, hparts, String.ofList_toList]

theorem fill_single {template before after : String}
    (htemplate : template = before ++ "\x7b0\x7d" ++ after) (hbefore : '{' ∉ before.toList)
    (hafter : '{' ∉ after.toList) (argument : String) :
    fill template [argument] = before ++ argument ++ after := by
  have hspells : Spells "0".toList 0 := by decide
  have hparts : fill _ [argument] = _ := fill_parts (by simp)
    [.literal before hbefore, .placeholder "0" ⟨0, by simp⟩ hspells, .literal after hafter]
  simpa [Part.source, Part.filled, htemplate, String.append_assoc] using hparts

end Parts

section Braces

/-- A brace is followed, up to the next closing one, by the index of an argument. -/
def HasPlaceholder (arguments : List String) (template : List Char) : Prop :=
  ∃ inner after index, '{' :: (inner ++ '}' :: after) <:+ template ∧ '}' ∉ inner ∧
    Spells inner index ∧ index < arguments.length

theorem hasPlaceholder_iff (hsize : arguments.length ≤ Nat.pow 2 64) :
    HasPlaceholder arguments template ↔
      ∃ after, '{' :: after <:+ template ∧ placeholder? arguments after ≠ none := by
  constructor
  · rintro ⟨inner, after, index, hsuffix, hinner, hspells, hlt⟩
    refine ⟨_, hsuffix, Option.ne_none_iff_exists'.2 ⟨(arguments[index], inner.length + 1), ?_⟩⟩
    exact placeholder?_eq_some_iff.2 ⟨inner, after, index, rfl, hinner, rfl, hspells,
      Nat.lt_of_lt_of_le hlt hsize, List.getElem?_eq_getElem hlt⟩
  · rintro ⟨after, hsuffix, hsome⟩
    obtain ⟨⟨argument, width⟩, hplaceholder⟩ := Option.ne_none_iff_exists'.1 hsome
    obtain ⟨inner, after, index, rfl, hinner, -, hspells, -, hargument⟩ :=
      placeholder?_eq_some_iff.1 hplaceholder
    exact ⟨inner, after, index, hsuffix, hinner, hspells, (List.getElem?_eq_some_iff.1 hargument).1⟩

theorem fillFrom_eq_self (h : ∀ after, '{' :: after <:+ template →
    placeholder? arguments after = none) : fillFrom arguments 0 template = template := by
  induction template with
  | nil => rfl
  | cons c rest ih =>
    have hrest : fillFrom arguments 0 rest = rest :=
      ih fun after hafter => h after (hafter.trans (List.suffix_cons c rest))
    rw [fillFrom]
    split
    next hbrace =>
      rw [h rest (hbrace ▸ List.suffix_refl _), hrest]
    next => rw [hrest]

/-- Placeholders are replaced once, and nothing else is: literal parts and arguments are copied,
whatever braces the arguments contain, and a template without placeholders stays. Each argument has
an index that fits a machine word. -/
theorem fill_substitutes (hsize : arguments.length ≤ Nat.pow 2 64) :
    (∀ parts : List (Part arguments),
      fill (String.join (parts.map Part.source)) arguments = String.join (parts.map Part.filled)) ∧
    ∀ template : String, ¬ HasPlaceholder arguments template.toList →
      fill template arguments = template := by
  refine ⟨fill_parts hsize, fun template h => ?_⟩
  rw [hasPlaceholder_iff hsize] at h
  have hself : fillFrom arguments 0 template.toList = template.toList :=
    fillFrom_eq_self fun after hafter => by_contra fun hsome => h ⟨after, hafter, hsome⟩
  rw [fill, hself, String.ofList_toList]

theorem fill_substitutes_braces :
    ["\x7b1\x7d", "b"].length ≤ Nat.pow 2 64 ∧
      fill "'\x7b0\x7d' in \x7b+01\x7d." ["\x7b1\x7d", "b"] = "'\x7b1\x7d' in b." ∧
      ¬ HasPlaceholder ["\x7b1\x7d", "b"] "\x7b2\x7d \x7b\x7bx\x7d0\x7d \x7b1".toList ∧
      fill "\x7b2\x7d \x7b\x7bx\x7d0\x7d \x7b1" ["\x7b1\x7d", "b"] =
        "\x7b2\x7d \x7b\x7bx\x7d0\x7d \x7b1" := by
  have hsize : ["\x7b1\x7d", "b"].length ≤ Nat.pow 2 64 := by decide
  have hzero : Spells "0".toList 0 := by decide
  have hone : Spells "+01".toList 1 := by decide
  have hstray : ¬ HasPlaceholder ["\x7b1\x7d", "b"]
      "\x7b2\x7d \x7b\x7bx\x7d0\x7d \x7b1".toList := by
    rw [hasPlaceholder_iff hsize]
    rintro ⟨after, hsuffix, hsome⟩
    have hall : ∀ tail ∈ "\x7b2\x7d \x7b\x7bx\x7d0\x7d \x7b1".toList.tails,
        tail.head? = some '{' → placeholder? ["\x7b1\x7d", "b"] tail.tail = none := by decide
    exact hsome (hall _ ((List.mem_tails _ _).2 hsuffix) rfl)
  refine ⟨hsize, ?_, hstray, (fill_substitutes hsize).2 _ hstray⟩
  exact (fill_substitutes hsize).1 [.literal "'" (by decide), .placeholder "0" ⟨0, by decide⟩ hzero,
    .literal "' in " (by decide), .placeholder "+01" ⟨1, by decide⟩ hone, .literal "." (by decide)]

end Braces

end TemplateCheck.Diagnostic
