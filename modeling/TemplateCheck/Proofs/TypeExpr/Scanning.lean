import TemplateCheck.Text.DottedName
import TemplateCheck.TypeExpr.Token

/-! What a text is scanned to, in front of any text that does not run into its last token. -/

namespace TemplateCheck.TypeExpr
variable {c : Char} {cs rest : List Char} {ts us : List Token}

section Characters

theorem not_isBlank_of_ascii (h : 33 ≤ c.toNat) (h' : c.toNat ≤ 126) : Text.isBlank c = false := by
  simp only [Text.isBlank, Bool.or_eq_false_iff, Bool.and_eq_false_iff, decide_eq_false_iff_not,
    beq_eq_false_iff_ne]
  omega

theorem toNat_of_isAlpha (h : c.isAlpha) : 65 ≤ c.toNat ∧ c.toNat ≤ 122 := by
  have hupper (h : c.isUpper) : 65 ≤ c.toNat ∧ c.toNat ≤ 90 := of_decide_eq_true h
  have hlower (h : c.isLower) : 97 ≤ c.toNat ∧ c.toNat ≤ 122 :=
    (Bool.and_eq_true_iff.1 h).imp of_decide_eq_true of_decide_eq_true
  rcases Bool.or_eq_true_iff.1 h with h | h
  · exact (hupper h).imp_right fun h => Nat.le_trans h (by decide)
  · exact (hlower h).imp_left (Nat.le_trans (by decide))

theorem toNat_of_isDigit (h : c.isDigit) : 48 ≤ c.toNat ∧ c.toNat ≤ 57 :=
  (Bool.and_eq_true_iff.1 h).imp of_decide_eq_true of_decide_eq_true

theorem toNat_of_isNamePart (h : isNamePart c) : 36 ≤ c.toNat ∧ c.toNat ≤ 122 := by
  simp only [isNamePart, Char.isAlphanum, Bool.or_eq_true, beq_iff_eq] at h
  rcases h with ((h | h) | rfl) | rfl
  · have hletter := toNat_of_isAlpha h
    omega
  · have hdigit := toNat_of_isDigit h
    omega
  · decide
  · decide

theorem isNamePart_of_isNameStart (h : isNameStart c) : isNamePart c := by
  simp only [isNameStart, isNamePart, Char.isAlphanum, Bool.or_eq_true] at h ⊢
  rcases h with (h | h) | h
  · exact .inl (.inl (.inl h))
  · exact .inl (.inr h)
  · exact .inr h

theorem ne_of_test {test : Char → Bool} {x : Char} (h : test c) (hx : test x = false) : c ≠ x := by
  rintro rfl
  rw [h] at hx
  cases hx

theorem lookup_symbols_of_isNamePart (h : isNamePart c) : symbols.lookup c = none := by
  simp only [List.lookup_eq_none_iff, bne_iff_ne]
  intro p hp
  refine ne_of_test h ?_
  revert p
  decide

end Characters

def Scans (text : List Char) (ts : List Token) : Prop :=
  ∀ fuel start, text.length ≤ fuel →
    ∃ placed, scanFrom fuel start text = .ok placed ∧ placed.map (·.token) = ts

theorem Scans.nil : Scans [] [] := fun fuel _ _ => ⟨[], by cases fuel <;> rfl, rfl⟩

theorem Scans.blank (hc : Text.isBlank c) (h : Scans cs ts) : Scans (c :: cs) ts := by
  intro fuel start hfuel
  obtain ⟨fuel, rfl⟩ := Nat.exists_eq_add_of_le' (Nat.le_of_add_left_le hfuel)
  obtain ⟨placed, hplaced, hts⟩ := h fuel (start + c.utf8Size) (Nat.le_of_succ_le_succ hfuel)
  exact ⟨placed, by rw [scanFrom, if_pos hc, hplaced], hts⟩

theorem Scans.lexeme {t : Token} {taken : List Char} (hc : Text.isBlank c = false)
    (ht : lexeme c (taken ++ rest) = .ok (t, taken.length)) (h : Scans rest ts) :
    Scans (c :: (taken ++ rest)) (t :: ts) := by
  intro fuel start hfuel
  obtain ⟨fuel, rfl⟩ := Nat.exists_eq_add_of_le' (Nat.le_of_add_left_le hfuel)
  have hrest : rest.length ≤ fuel := by
    rw [List.length_cons, List.length_append] at hfuel
    omega
  obtain ⟨placed, hplaced, rfl⟩ := h fuel (start + c.utf8Size + byteCount taken) hrest
  refine ⟨⟨t, start, start + c.utf8Size + byteCount taken⟩ :: placed, ?_, rfl⟩
  rw [scanFrom, if_neg (by simp [hc]), ht]
  simp only [List.take_left, List.drop_left, hplaced]
  rfl

theorem Scans.single {t : Token} (h : Scans cs [t]) : ∃ p, scan cs = .ok [p] ∧ p.token = t := by
  obtain ⟨placed, hplaced, htokens⟩ := h cs.length 0 (Nat.le_refl _)
  obtain ⟨p, rfl, hp⟩ := List.map_eq_singleton_iff.1 htokens
  exact ⟨p, hplaced, hp⟩

def Written (follow : List Char → Prop) (text : String) (ts : List Token) : Prop :=
  ∀ rest us, follow rest → Scans rest us → Scans (text.toList ++ rest) (ts ++ us)

def Ends (rest : List Char) : Prop := ∀ c ∈ rest.head?, isNamePart c = false ∧ c ≠ '.'

def Free (_ : List Char) : Prop := True

namespace Written
variable {F G : List Char → Prop} {a b : String}

theorem mono (h : Written F a ts) (hF : ∀ rest, G rest → F rest) : Written G a ts :=
  fun rest us hrest => h rest us (hF rest hrest)

theorem empty : Written G "" [] := fun _ _ _ h => h

theorem append (ha : Written F a ts) (hb : Written G b us)
    (hF : ∀ rest, G rest → F (b.toList ++ rest)) : Written G (a ++ b) (ts ++ us) := by
  intro rest vs hrest h
  rw [String.toList_append, List.append_assoc, List.append_assoc]
  exact ha _ _ (hF rest hrest) (hb rest vs hrest h)

theorem free_append (ha : Written Free a ts) (hb : Written G b us) :
    Written G (a ++ b) (ts ++ us) := ha.append hb fun _ _ => trivial

theorem blank (hc : Text.isBlank c) : Written Free (String.ofList [c]) [] := by
  intro rest us _ h
  rw [String.toList_ofList]
  exact h.blank hc

theorem token {t : Token} (c : Char) (taken : List Char) (hc : Text.isBlank c = false)
    (ht : ∀ rest, F rest → lexeme c (taken ++ rest) = .ok (t, taken.length)) :
    Written F (String.ofList (c :: taken)) [t] := by
  intro rest us hrest h
  rw [String.toList_ofList]
  exact h.lexeme hc (ht rest hrest)

theorem symbol {t : Token} (c : Char) (hc : Text.isBlank c = false)
    (ht : symbols.lookup c = some t) : Written Free (String.ofList [c]) [t] :=
  token c [] hc fun rest _ => by simp [TypeExpr.lexeme, ht]

theorem arrow : Written Free "=>" [.arrow] :=
  token '=' ['>'] (by decide) fun rest _ => by
    have hsymbol : symbols.lookup '=' = none := by decide
    simp [TypeExpr.lexeme, hsymbol, startsWith]

theorem ellipsis : Written Free "..." [.ellipsis] :=
  token '.' ['.', '.'] (by decide) fun rest _ => by
    have hsymbol : symbols.lookup '.' = none := by decide
    simp [TypeExpr.lexeme, hsymbol]

theorem dot : Written (fun rest => rest.head? ≠ some '.') "." [.dot] :=
  token '.' [] (by decide) fun rest hrest => by
    have hsymbol : symbols.lookup '.' = none := by decide
    have htake : rest.take 2 ≠ ['.', '.'] := by
      intro h
      cases rest with
      | nil => simp at h
      | cons d rest => simp_all
    simp [TypeExpr.lexeme, hsymbol, htake]

end Written

section Names

def IsIdentifier (cs : List Char) : Prop :=
  ∃ c tail, cs = c :: tail ∧ isNameStart c ∧ ∀ d ∈ tail, isNamePart d

theorem head_and_tail_iff {start part : Char → Bool} :
    cs.head?.any start ∧ cs.tail.all part ↔
      ∃ c tail, cs = c :: tail ∧ start c ∧ ∀ d ∈ tail, part d := by
  cases cs with
  | nil => simp
  | cons c tail =>
    constructor
    · intro ⟨hc, htail⟩
      exact ⟨c, tail, rfl, hc, List.all_eq_true.1 htail⟩
    · rintro ⟨_, _, ⟨⟩, hc, htail⟩
      exact ⟨hc, List.all_eq_true.2 htail⟩

instance : DecidablePred IsIdentifier := fun _ => decidable_of_iff _ head_and_tail_iff

theorem IsIdentifier.isNamePart (h : IsIdentifier cs) (hc : c ∈ cs) : isNamePart c := by
  obtain ⟨d, tail, rfl, hd, htail⟩ := h
  rcases List.mem_cons.1 hc with rfl | hc
  · exact isNamePart_of_isNameStart hd
  · exact htail c hc

theorem splitAtChar_cons (separator c : Char) (cs : List Char) :
    ∃ first parts, Text.splitAtChar separator cs = first :: parts ∧
      Text.splitAtChar separator (c :: cs) =
        if c = separator then [] :: first :: parts else (c :: first) :: parts := by
  cases h : Text.splitAtChar separator cs with
  | nil =>
    cases cs with
    | nil => cases h
    | cons d cs =>
      rw [Text.splitAtChar] at h
      split at h
      · cases h
      · split at h <;> cases h
  | cons first parts => exact ⟨first, parts, rfl, by rw [Text.splitAtChar, h]⟩

theorem head?_of_splitAtChar {first : List Char} {parts : List (List Char)} {separator : Char}
    (h : Text.splitAtChar separator cs = first :: parts) (hc : first.head? = some c) :
    cs.head? = some c := by
  cases cs with
  | nil =>
    obtain ⟨rfl, -⟩ := List.cons.inj h
    cases hc
  | cons d cs =>
    obtain ⟨next, more, -, hcons⟩ := splitAtChar_cons separator d cs
    rw [hcons] at h
    split at h
    · obtain ⟨rfl, -⟩ := List.cons.inj h
      cases hc
    · obtain ⟨rfl, -⟩ := List.cons.inj h
      exact hc

theorem nameTail_append {first : List Char} {parts : List (List Char)}
    (h : Text.splitAtChar '.' cs = first :: parts) (hfirst : ∀ c ∈ first, isNamePart c)
    (hparts : ∀ part ∈ parts, IsIdentifier part) (hrest : Ends rest) :
    nameTail (cs ++ rest) = cs := by
  induction cs generalizing first parts with
  | nil =>
    cases rest with
    | nil => rfl
    | cons d rest =>
      obtain ⟨hd, hdot⟩ := hrest d rfl
      simp [nameTail, hd, hdot]
  | cons c cs ih =>
    obtain ⟨next, more, hcs, hcons⟩ := splitAtChar_cons '.' c cs
    rw [hcons] at h
    rw [List.cons_append, nameTail]
    split at h
    next hdot =>
      obtain ⟨rfl, rfl⟩ := List.cons.inj h
      have hnext := hparts next (List.mem_cons_self ..)
      obtain ⟨d, tail, htail, hd, -⟩ := id hnext
      have hhead : cs.head? = some d := head?_of_splitAtChar hcs (by rw [htail]; rfl)
      have hstart : startsWith isNameStart (cs ++ rest) := by
        rw [startsWith, List.head?_append, hhead]
        simpa using hd
      have hpart : isNamePart c = false := by rw [hdot]; decide
      rw [if_neg (by simp [hpart]), if_pos (by simp [hdot, hstart]),
        ih hcs (fun c hc => hnext.isNamePart hc)
          fun part hpart => hparts part (List.mem_cons_of_mem _ hpart)]
    next hdot =>
      obtain ⟨rfl, rfl⟩ := List.cons.inj h
      rw [if_pos (hfirst c (List.mem_cons_self ..)),
        ih hcs (fun c hc => hfirst c (List.mem_cons_of_mem _ hc)) hparts]

theorem isDigit_of_isNameStart (hc : isNameStart c) : c.isDigit = false := by
  simp only [isNameStart, Bool.or_eq_true, beq_iff_eq] at hc
  rcases hc with (hc | rfl) | rfl
  · refine Bool.eq_false_iff.2 fun hdigit => ?_
    have hletter := toNat_of_isAlpha hc
    have hnumber := toNat_of_isDigit hdigit
    omega
  · decide
  · decide

theorem lexeme_name (hc : isNameStart c) :
    lexeme c rest = .ok (.name (String.ofList (c :: nameTail rest)), (nameTail rest).length) := by
  have hsymbol := lookup_symbols_of_isNamePart (isNamePart_of_isNameStart hc)
  have hother (x : Char) (hx : isNameStart x = false) : c ≠ x := ne_of_test hc hx
  simp [lexeme, hsymbol, hc, isDigit_of_isNameStart hc, hother '=' (by decide),
    hother '.' (by decide), hother '@' (by decide), hother '\'' (by decide),
    hother '"' (by decide), hother '-' (by decide)]

def IsDottedName (text : String) : Prop :=
  ∀ part ∈ Text.splitAtChar '.' text.toList, IsIdentifier part

theorem IsDottedName.cons {text : String} (h : IsDottedName text) :
    ∃ c cs first parts, text.toList = c :: cs ∧ isNameStart c ∧
      Text.splitAtChar '.' cs = first :: parts ∧ (∀ d ∈ first, isNamePart d) ∧
      ∀ part ∈ parts, IsIdentifier part := by
  cases htext : text.toList with
  | nil =>
    obtain ⟨c, tail, hnil, -⟩ := h [] (by rw [htext]; simp [Text.splitAtChar])
    cases hnil
  | cons c cs =>
    obtain ⟨first, parts, hcs, hcons⟩ := splitAtChar_cons '.' c cs
    rw [IsDottedName, htext, hcons] at h
    have hdot : c ≠ '.' := by
      rintro rfl
      obtain ⟨d, tail, hnil, -⟩ := h [] (by simp)
      cases hnil
    rw [if_neg hdot] at h
    obtain ⟨d, tail, hfirst, hstart, htail⟩ := h (c :: first) (List.mem_cons_self ..)
    obtain ⟨rfl, rfl⟩ := List.cons.inj hfirst
    exact ⟨c, cs, first, parts, rfl, hstart, hcs, htail,
      fun part hpart => h part (List.mem_cons_of_mem _ hpart)⟩

theorem Written.name {text : String} (h : IsDottedName text) : Written Ends text [.name text] := by
  obtain ⟨c, cs, first, parts, htext, hstart, hcs, hfirst, hparts⟩ := h.cons
  rw [show text = String.ofList (c :: cs) by rw [← htext, String.ofList_toList]]
  obtain ⟨hlow, hhigh⟩ := toNat_of_isNamePart (isNamePart_of_isNameStart hstart)
  refine Written.token c cs (not_isBlank_of_ascii (by omega) (by omega)) fun rest hrest => ?_
  rw [lexeme_name hstart, nameTail_append hcs hfirst hparts hrest]

def IsAttributeName (text : String) : Prop :=
  ∃ c tail, text.toList = c :: tail ∧ isNameStart c ∧ ∀ d ∈ tail, isAttributePart d

instance : DecidablePred IsAttributeName := fun _ => decidable_of_iff _ head_and_tail_iff

theorem takeWhile_append_of_follow {test : Char → Bool} (h : ∀ c ∈ cs, test c)
    (hrest : ∀ c ∈ rest.head?, test c = false) : (cs ++ rest).takeWhile test = cs := by
  rw [List.takeWhile_append_of_pos h]
  cases rest with
  | nil => simp
  | cons c rest => simp [hrest c rfl]

theorem Written.attributeName {text : String} (h : IsAttributeName text) :
    Written (fun rest => ∀ c ∈ rest.head?, isAttributePart c = false) ("@" ++ text)
      [.attributeName text] := by
  obtain ⟨c, tail, htext, hc, htail⟩ := h
  have hat : "@" ++ text = String.ofList ('@' :: text.toList) := by
    rw [← String.toList_inj]
    simp
  rw [hat]
  refine Written.token '@' text.toList (by decide) fun rest hrest => ?_
  have hsymbol : symbols.lookup '@' = none := by decide
  have hparts : ∀ d ∈ text.toList, isAttributePart d := by
    intro d hd
    rw [htext] at hd
    rcases List.mem_cons.1 hd with rfl | hd
    · simp [isAttributePart, isNamePart_of_isNameStart hc]
    · exact htail d hd
  have hstart : startsWith isNameStart (text.toList ++ rest) := by simp [startsWith, htext, hc]
  simp [lexeme, hsymbol, hstart, takeWhile_append_of_follow hparts hrest]

end Names

section Numbers

def IsNumber (text : String) : Prop :=
  ∃ p, scan text.toList = .ok [p] ∧ p.token = .number text

def StartsNumber (c : Char) (rest : List Char) : Prop :=
  c.isDigit ∨ c = '-' ∧ startsWith Char.isDigit rest

theorem lexeme_number (h : StartsNumber c rest) :
    lexeme c rest = .ok (.number (String.ofList (c :: rest.takeWhile isNumberPart)),
      (rest.takeWhile isNumberPart).length) := by
  rcases h with hc | ⟨rfl, hrest⟩
  · have hpart : isNamePart c := by simp [isNamePart, Char.isAlphanum, hc]
    have hsymbol := lookup_symbols_of_isNamePart hpart
    have hother (x : Char) (hx : isNamePart x = false) : c ≠ x := ne_of_test hpart hx
    simp [lexeme, hsymbol, hc, hother '=' (by decide), hother '.' (by decide),
      hother '@' (by decide), hother '\'' (by decide), hother '"' (by decide)]
  · have hsymbol : symbols.lookup '-' = none := by decide
    simp [lexeme, hsymbol, hrest]

theorem startsNumber_of_lexeme {text : String} {width : Nat}
    (h : lexeme c rest = .ok (.number text, width)) : StartsNumber c rest := by
  unfold lexeme at h
  split at h
  next t ht =>
    have hsymbols : ∀ p ∈ symbols, ∀ text, p.2 ≠ Token.number text := by simp [symbols]
    obtain ⟨before, after, hmem, -⟩ := List.lookup_eq_some_iff.1 ht
    cases h
    exact absurd rfl (hsymbols (c, .number text) (by simp [hmem]) text)
  next =>
    repeat' split at h
    all_goals cases h
    next hnumber => simpa [StartsNumber] using hnumber

theorem text_of_lexeme_number {text : String} {width : Nat}
    (h : lexeme c rest = .ok (.number text, width)) :
    text.toList = c :: rest.takeWhile isNumberPart := by
  rw [lexeme_number (startsNumber_of_lexeme h)] at h
  cases h
  rw [String.toList_ofList]

theorem scanFrom_cons {fuel start : Nat} {p : PlacedToken} {ps : List PlacedToken}
    (hc : Text.isBlank c = false) (h : scanFrom (fuel + 1) start (c :: cs) = .ok (p :: ps)) :
    ∃ width, lexeme c cs = .ok (p.token, width) := by
  rw [scanFrom, if_neg (by simp [hc])] at h
  split at h
  · cases h
  · cases h
  next token width hlexeme =>
    refine ⟨width, ?_⟩
    dsimp only at h
    cases hplaced : scanFrom fuel (start + c.utf8Size + byteCount (cs.take width))
        (cs.drop width) with
    | error e =>
      rw [hplaced] at h
      cases h
    | ok placed =>
      rw [hplaced] at h
      cases h
      exact hlexeme

theorem length_number_le {fuel start : Nat} {p : PlacedToken} {ps : List PlacedToken}
    {text : String} (h : scanFrom fuel start cs = .ok (p :: ps)) (hp : p.token = .number text) :
    text.toList.length ≤ cs.length := by
  induction fuel generalizing start cs with
  | zero => cases h
  | succ fuel ih =>
    cases cs with
    | nil => cases h
    | cons c cs =>
      cases hc : Text.isBlank c with
      | true =>
        rw [scanFrom, if_pos hc] at h
        exact Nat.le_succ_of_le (ih h)
      | false =>
        obtain ⟨width, hlexeme⟩ := scanFrom_cons hc h
        rw [text_of_lexeme_number (hp ▸ hlexeme)]
        exact Nat.succ_le_succ (List.takeWhile_prefix _).length_le

theorem IsNumber.shape {text : String} (h : IsNumber text) :
    ∃ c cs, text.toList = c :: cs ∧ StartsNumber c cs ∧ ∀ d ∈ cs, isNumberPart d := by
  obtain ⟨p, hscan, hp⟩ := h
  cases htext : text.toList with
  | nil =>
    rw [htext] at hscan
    cases hscan
  | cons c cs =>
    rw [scan, htext, List.length_cons] at hscan
    cases hc : Text.isBlank c with
    | true =>
      rw [scanFrom, if_pos hc] at hscan
      have hlength := length_number_le hscan hp
      rw [htext, List.length_cons] at hlength
      omega
    | false =>
      obtain ⟨width, hlexeme⟩ := scanFrom_cons hc hscan
      rw [hp] at hlexeme
      have htake := text_of_lexeme_number hlexeme
      rw [htext] at htake
      obtain ⟨-, htake⟩ := List.cons.inj htake
      refine ⟨c, cs, rfl, startsNumber_of_lexeme hlexeme, fun d hd => ?_⟩
      rw [htake] at hd
      exact List.all_eq_true.1 List.all_takeWhile d hd

theorem Written.number {text : String} (h : IsNumber text) : Written Ends text [.number text] := by
  obtain ⟨c, cs, htext, hstart, hcs⟩ := h.shape
  have hc : Text.isBlank c = false := by
    rcases hstart with hc | ⟨rfl, -⟩
    · obtain ⟨hlow, hhigh⟩ := toNat_of_isNamePart
        (show isNamePart c by simp [isNamePart, Char.isAlphanum, hc])
      exact not_isBlank_of_ascii (by omega) (by omega)
    · decide
  rw [show text = String.ofList (c :: cs) by rw [← htext, String.ofList_toList]]
  refine Written.token c cs hc fun rest hrest => ?_
  have hnumber : ∀ d ∈ rest.head?, isNumberPart d = false := by
    intro d hd
    obtain ⟨hpart, hdot⟩ := hrest d hd
    simp_all [isNumberPart, isNamePart, Char.isAlphanum]
  have hstart : StartsNumber c (cs ++ rest) := by
    refine hstart.imp id fun ⟨hminus, hdigit⟩ => ⟨hminus, ?_⟩
    cases cs with
    | nil => simp [startsWith] at hdigit
    | cons d cs => simpa [startsWith] using hdigit
  rw [lexeme_number hstart, takeWhile_append_of_follow hcs hnumber]

end Numbers

section Quotes

theorem unescape_of_lookup {letter : Char} (h : Text.typeEscapes.lookup c = some letter) :
    Text.unescape letter = c := by
  obtain ⟨before, after, hmem, -⟩ := List.lookup_eq_some_iff.1 h
  have hall : ∀ p ∈ Text.typeEscapes, Text.unescape p.2 = p.1 := by decide
  exact hall (c, letter) (by simp [hmem])

theorem readQuoted_write (c : Char) (rest : List Char) :
    Text.readQuoted '\'' (Text.typeEscapes.write c ++ rest) =
      (Text.readQuoted '\'' rest).map fun (value, width) =>
        (c :: value, width + (Text.typeEscapes.write c).length) := by
  cases h : Text.typeEscapes.lookup c with
  | none =>
    have hplain : ∀ p ∈ Text.typeEscapes, c ≠ p.1 := by
      simpa only [List.lookup_eq_none_iff, bne_iff_ne] using h
    have hquote : c ≠ '\'' := hplain ('\'', '\'') (by decide)
    have hslash : c ≠ '\\' := hplain ('\\', '\\') (by decide)
    rw [Text.Escapes.write, h, List.singleton_append, Text.readQuoted.eq_def]
    simp [hquote, hslash]
  | some letter =>
    simp [Text.Escapes.write, h, Text.readQuoted, unescape_of_lookup h]

theorem readQuoted_quote (text rest : List Char) :
    Text.readQuoted '\'' (text.flatMap Text.typeEscapes.write ++ '\'' :: rest) =
      some (text, (text.flatMap Text.typeEscapes.write).length + 1) := by
  induction text with
  | nil =>
    rw [List.flatMap_nil, List.nil_append, Text.readQuoted.eq_def]
    simp
  | cons c text ih =>
    rw [List.flatMap_cons, List.append_assoc, readQuoted_write, ih]
    simp only [Option.map_some, List.length_append, Option.some.injEq, Prod.mk.injEq, true_and]
    omega

theorem Written.quoted (text : String) :
    Written Free (Text.typeEscapes.quoteString text) [.quoted text] := by
  have hsymbol : symbols.lookup '\'' = none := by decide
  refine Written.token '\'' _ (by decide) fun rest _ => ?_
  simp [lexeme, hsymbol, readQuoted_quote]

end Quotes

end TemplateCheck.TypeExpr
