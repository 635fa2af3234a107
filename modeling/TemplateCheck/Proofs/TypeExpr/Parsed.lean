import Mathlib.Data.List.TakeWhile
import TemplateCheck.Proofs.TypeExpr.WellFormed
import TemplateCheck.TypeExpr.Parser

/-! The expressions that the parser builds are well formed: the scanner takes names and numbers as a
whole, and each rule puts well-formed parts together. -/

namespace TemplateCheck.TypeExpr

section Lexemes
variable {c : Char} {cs rest : List Char} {t : Token} {width : Nat}

def Token.Lexical : Token → Prop
  | .name text => IsDottedName text
  | .attributeName text => IsAttributeName text
  | .number text => IsNumber text
  | _ => True

theorem splitAtChar_nameTail (cs : List Char) :
    ∃ first parts, Text.splitAtChar '.' (nameTail cs) = first :: parts ∧
      (∀ d ∈ first, isNamePart d) ∧ (∀ part ∈ parts, IsIdentifier part) ∧
      (startsWith isNameStart cs → IsIdentifier first) := by
  induction cs with
  | nil => exact ⟨[], [], rfl, by simp, by simp, by simp [startsWith]⟩
  | cons c cs ih =>
    obtain ⟨first, parts, hsplit, hfirst, hparts, hstart⟩ := ih
    rw [nameTail]
    split
    next hc =>
      have hdot : c ≠ '.' := ne_of_test hc (by decide)
      refine ⟨c :: first, parts, by rw [Text.splitAtChar, if_neg hdot, hsplit], ?_, hparts, ?_⟩
      · exact List.forall_mem_cons.2 ⟨hc, hfirst⟩
      · intro h
        exact ⟨c, first, rfl, by simpa [startsWith] using h, hfirst⟩
    next hc =>
      split
      next hdot =>
        obtain ⟨rfl, hnext⟩ : c = '.' ∧ startsWith isNameStart cs := by simpa using hdot
        refine ⟨[], first :: parts, by rw [Text.splitAtChar, if_pos rfl, hsplit], by simp, ?_, ?_⟩
        · exact List.forall_mem_cons.2 ⟨hstart hnext, hparts⟩
        · intro h
          exact absurd h (by simp [startsWith]; decide)
      next =>
        refine ⟨[], [], rfl, by simp, by simp, fun h => ?_⟩
        have hc' : isNameStart c := by simpa [startsWith] using h
        exact absurd (isNamePart_of_isNameStart hc') hc

theorem isDottedName_nameTail (hc : isNameStart c) (rest : List Char) :
    IsDottedName (String.ofList (c :: nameTail rest)) := by
  obtain ⟨first, parts, hsplit, hfirst, hparts, -⟩ := splitAtChar_nameTail rest
  have hdot : c ≠ '.' := ne_of_test hc (by decide)
  intro part hpart
  rw [String.toList_ofList, Text.splitAtChar, if_neg hdot, hsplit] at hpart
  rcases List.mem_cons.1 hpart with rfl | hpart
  · exact ⟨c, first, rfl, hc, hfirst⟩
  · exact hparts part hpart

theorem isAttributeName_takeWhile (h : startsWith isNameStart rest) :
    IsAttributeName (String.ofList (rest.takeWhile isAttributePart)) := by
  cases rest with
  | nil => simp [startsWith] at h
  | cons d rest =>
    have hd : isNameStart d := by simpa [startsWith] using h
    have hpart : isAttributePart d := by simp [isAttributePart, isNamePart_of_isNameStart hd]
    refine ⟨d, rest.takeWhile isAttributePart, ?_, hd, fun e he => ?_⟩
    · rw [String.toList_ofList, List.takeWhile_cons_of_pos hpart]
    · exact List.all_eq_true.1 List.all_takeWhile e he

theorem StartsNumber.takeWhile (h : StartsNumber c rest) :
    StartsNumber c (rest.takeWhile isNumberPart) := by
  refine h.imp id fun ⟨hminus, hdigit⟩ => ⟨hminus, ?_⟩
  cases rest with
  | nil => exact hdigit
  | cons d rest =>
    have hd : d.isDigit := by simpa [startsWith] using hdigit
    have hpart : isNumberPart d := by simp [isNumberPart, hd]
    rw [List.takeWhile_cons_of_pos hpart]
    simpa [startsWith] using hd

theorem StartsNumber.not_isBlank (h : StartsNumber c rest) : Text.isBlank c = false := by
  rcases h with hc | ⟨rfl, -⟩
  · have hrange := toNat_of_isDigit hc
    exact not_isBlank_of_ascii (by omega) (by omega)
  · decide

theorem isNumber_takeWhile (h : StartsNumber c rest) :
    IsNumber (String.ofList (c :: rest.takeWhile isNumberPart)) := by
  have hlexeme := lexeme_number h.takeWhile
  rw [List.takeWhile_idem] at hlexeme
  have hscans : Scans (c :: (rest.takeWhile isNumberPart ++ [])) _ :=
    Scans.lexeme h.not_isBlank (by rw [List.append_nil]; exact hlexeme) .nil
  rw [List.append_nil] at hscans
  rw [IsNumber, String.toList_ofList]
  exact hscans.single

theorem lexical_of_lexeme (h : lexeme c rest = .ok (t, width)) : t.Lexical := by
  unfold lexeme at h
  split at h
  next u hu =>
    have hsymbols : ∀ p ∈ symbols, p.2.Lexical := by simp [symbols, Token.Lexical]
    obtain ⟨before, after, hmem, -⟩ := List.lookup_eq_some_iff.1 hu
    cases h
    exact hsymbols (c, t) (by simp [hmem])
  next =>
    repeat' split at h
    all_goals cases h
    all_goals try trivial
    next hattribute => exact isAttributeName_takeWhile (Bool.and_eq_true_iff.1 hattribute).2
    next hnumber => exact isNumber_takeWhile (by simpa [StartsNumber] using hnumber)
    next hname => exact isDottedName_nameTail hname rest

theorem lexical_of_scanFrom {fuel start : Nat} {placed : List PlacedToken}
    (h : scanFrom fuel start cs = .ok placed) : ∀ p ∈ placed, p.token.Lexical := by
  induction fuel generalizing start cs placed with
  | zero =>
    cases h
    simp
  | succ fuel ih =>
    cases cs with
    | nil =>
      cases h
      simp
    | cons c cs =>
      rw [scanFrom] at h
      split at h
      · exact ih h
      · split at h
        · cases h
        · cases h
        next token width hlexeme =>
          dsimp only at h
          cases hrest : scanFrom fuel (start + c.utf8Size + byteCount (cs.take width))
              (cs.drop width) with
          | error e =>
            rw [hrest] at h
            cases h
          | ok tokens =>
            rw [hrest] at h
            cases h
            exact List.forall_mem_cons.2 ⟨lexical_of_lexeme hlexeme, ih hrest⟩

end Lexemes

section Names
variable {name : String}

theorem IsDottedName.plain (h : IsDottedName name) (hdot : Text.isDotted name = false) :
    IsPlainName name := by
  have hmem : '.' ∉ name.toList := by simpa [Text.isDotted] using hdot
  refine h name.toList ?_
  rw [splitAtChar_of_not_mem hmem]
  exact List.mem_singleton_self _

theorem IsDottedName.segments (h : IsDottedName name) :
    ∀ part ∈ Text.segments name, IsPlainName part := by
  refine List.forall_mem_map.2 fun part hpart => ?_
  rw [IsPlainName, String.toList_ofList]
  exact h part hpart

theorem wellFormed_of_keyword {value : Literal} (h : (name, value) ∈ keywords) :
    value.WellFormed := by
  simp only [keywords, List.mem_cons, List.not_mem_nil, or_false, Prod.mk.injEq] at h
  rcases h with ⟨-, rfl⟩ | ⟨-, rfl⟩ | ⟨-, rfl⟩ | ⟨-, rfl⟩
  · trivial
  · trivial
  · exact .inl rfl
  · exact .inr (.inl rfl)

end Names

variable {α β : Type}

def Cursor.Lexical (c : Cursor) : Prop := ∀ t ∈ c.tokens, t.token.Lexical

/-- What the parser returns, from tokens that a text can have, meets `post`. -/
def Builds (p : Parse α) (post : α → Prop) : Prop :=
  ∀ c a c', c.Lexical → p.run c = .ok (a, c') → post a ∧ c'.Lexical

namespace Builds
variable {p : Parse α} {f : α → Parse β} {P : α → Prop} {Q : β → Prop}

theorem ret {a : α} (h : P a) : Builds (pure a) P := by
  intro c a c' hc hrun
  cases hrun
  exact ⟨h, hc⟩

theorem bind (hp : Builds p P) (hf : ∀ a, P a → Builds (f a) Q) : Builds (p >>= f) Q := by
  intro c b c'' hc hrun
  rw [StateT.run_bind] at hrun
  cases hfirst : p.run c with
  | error e =>
    rw [hfirst] at hrun
    cases hrun
  | ok result =>
    obtain ⟨a, c'⟩ := result
    rw [hfirst] at hrun
    obtain ⟨ha, hc'⟩ := hp c a c' hc hfirst
    exact hf a ha c' b c'' hc' hrun

theorem next (hp : Builds p fun _ => True) (hf : ∀ a, Builds (f a) Q) : Builds (p >>= f) Q :=
  hp.bind fun a _ => hf a

section Tokens

theorem getState : Builds (get : Parse Cursor) fun _ => True := by
  intro c a c' hc hrun
  cases hrun
  exact ⟨trivial, hc⟩

theorem locate (start stop : Nat) : Builds (Parse.locate start stop) fun _ => True :=
  getState.next fun _ => ret trivial

theorem lookahead (ahead : Nat) :
    Builds (Parse.lookahead ahead) fun found => ∀ t, found = some t → t.Lexical := by
  intro c a c' hc hrun
  cases hrun
  refine ⟨fun t ht => ?_, hc⟩
  obtain ⟨next, hnext, rfl⟩ := Option.map_eq_some_iff.1 ht
  exact hc next (List.mem_of_getElem? hnext)

theorem peek : Builds Parse.peek fun found => ∀ t, found = some t → t.Lexical := lookahead 0

theorem advance : Builds Parse.advance fun _ => True := by
  intro c a c' hc hrun
  refine ⟨trivial, ?_⟩
  simp only [Parse.advance, StateT.run_bind, StateT.run_get, pure_bind] at hrun
  split at hrun
  next => cases hrun; exact hc
  next next rest htokens =>
    cases hrun
    intro t ht
    refine hc t ?_
    rw [htokens]
    exact List.mem_cons_of_mem _ ht

theorem fails (fault : SyntaxFault) : Builds (Parse.failWith fault : Parse α) P := by
  intro c a c' hc hrun
  cases hrun

theorem fail (expected : Expected) : Builds (Parse.fail expected : Parse α) P :=
  peek.bind fun _ _ => fails _

theorem eat (token : Token) : Builds (Parse.eat token) fun _ => True := by
  refine peek.bind fun found _ => ?_
  split
  · exact advance.next fun _ => ret trivial
  · exact ret trivial

theorem expect (token : Token) (expected : Expected) :
    Builds (Parse.expect token expected) fun _ => True := by
  refine peek.bind fun found _ => ?_
  split
  · exact advance
  · exact fail expected

end Tokens

section Rows

theorem simpleName (expected : Expected) :
    Builds (Parse.simpleName expected) fun name => IsPlainName name.1 := by
  refine peek.bind fun found hfound => ?_
  split
  next text =>
    split
    · exact fail expected
    next hdot =>
      have hname : IsDottedName text := hfound _ rfl
      exact advance.next fun _ => ret (hname.plain (by simpa using hdot))
  · exact fail expected

theorem separated {separator : Token} (hp : Builds p P) (fuel : Nat) :
    Builds (Parse.separated separator p fuel) fun items => ∀ a ∈ items, P a := by
  induction fuel with
  | zero => exact ret (by simp)
  | succ fuel ih =>
    refine (eat separator).next fun found => ?_
    split
    · refine hp.bind fun a ha => ih.bind fun items hitems => ?_
      exact ret (List.forall_mem_cons.2 ⟨ha, hitems⟩)
    · exact ret (by simp)

theorem entries {close : Token} (hp : Builds p P) (fuel : Nat) :
    Builds (Parse.entries close p fuel) fun items => ∀ a ∈ items, P a := by
  induction fuel with
  | zero => exact ret (by simp)
  | succ fuel ih =>
    refine peek.bind fun found _ => ?_
    split
    · exact ret (by simp)
    · refine hp.bind fun a ha => (eat .comma).next fun more => ?_
      split
      · exact ih.bind fun items hitems => ret (List.forall_mem_cons.2 ⟨ha, hitems⟩)
      · exact ret (List.forall_mem_singleton.2 ha)

end Rows

section Rules
variable {type : Parse TypeExpr} {fuel : Nat}

theorem chain {separator : Token} {make : Location → List TypeExpr → TypeExpr}
    {operand : Parse TypeExpr} (h : Builds operand WellFormed)
    (hmake : ∀ l {es : List TypeExpr}, 2 ≤ es.length → (∀ e ∈ es, WellFormed e) →
      WellFormed (make l es)) :
    Builds (Parse.chain fuel separator make operand) WellFormed := by
  refine h.bind fun first hfirst => (h.separated fuel).bind fun others hothers => ?_
  split
  · exact ret hfirst
  next hsome =>
    refine getState.next fun _ => (locate _ _).next fun l => ret (hmake l ?_ ?_)
    · have hpos := List.length_pos_of_ne_nil fun hnil => hsome (List.isEmpty_iff.2 hnil)
      exact Nat.succ_le_succ hpos
    · exact List.forall_mem_cons.2 ⟨hfirst, hothers⟩

theorem wellFormed_foldl {e : TypeExpr} (l : Location) (h : WellFormed e) {path : List String}
    (hpath : ∀ p ∈ path, IsPlainName p) :
    WellFormed (path.foldl (fun base p => .indexed l base p) e) := by
  induction path generalizing e with
  | nil => exact h
  | cons p path ih =>
    obtain ⟨hp, hpath⟩ := List.forall_mem_cons.1 hpath
    exact ih (.indexed l hp h) hpath

theorem properties {e : TypeExpr} (h : WellFormed e) (fuel : Nat) :
    Builds (Parse.properties fuel e) WellFormed := by
  induction fuel generalizing e with
  | zero => exact ret h
  | succ fuel ih =>
    refine (eat .dot).next fun found => ?_
    split
    · refine peek.bind fun name hname => ?_
      split
      next path =>
        have hpath : IsDottedName path := hname _ rfl
        refine advance.next fun place => (locate _ _).next fun l => ?_
        exact ih (wellFormed_foldl l h hpath.segments)
      · exact fail _
    · exact ret h

variable (htype : Builds type WellFormed)
include htype

theorem field : Builds (Parse.field type) fun f => IsPlainName f.name ∧ WellFormed f.type := by
  refine (simpleName _).bind fun name hname => (eat _).next fun _ => (expect _ _).next fun _ => ?_
  exact htype.bind fun e he => ret ⟨hname, he⟩

theorem recordType : Builds (Parse.recordType fuel type) WellFormed := by
  refine advance.next fun _ => ((field htype).entries fuel).bind fun fields hfields => ?_
  refine (expect _ _).next fun _ => (locate _ _).next fun l => ret ?_
  exact .record l (fun f hf => (hfields f hf).1) fun f hf => (hfields f hf).2

theorem functionParam :
    Builds (Parse.functionParam type) fun p => p.Spelled ∧ WellFormed p.type := by
  refine (eat _).next fun _ => (simpleName _).bind fun name hname => (expect _ _).next fun _ => ?_
  exact htype.bind fun e he => ret ⟨⟨rfl, hname⟩, he⟩

theorem resultType : Builds (Parse.resultType type) WellFormed :=
  (expect _ _).next fun _ => (expect _ _).next fun _ => htype

theorem functionType : Builds (Parse.functionType fuel type) WellFormed := by
  refine advance.next fun _ => ((functionParam htype).entries fuel).bind fun params hparams => ?_
  refine (resultType htype).bind fun result hresult => (locate _ _).next fun l => ret ?_
  exact .function l (fun p hp => (hparams p hp).1) (fun p hp => (hparams p hp).2) hresult

omit htype in
theorem templateParamName :
    Builds Parse.templateParamName fun (name, spelling, kind) => ∀ l required (e : TypeExpr),
      TemplateParam.Spelled ⟨name, spelling, l, kind, required, e⟩ := by
  refine peek.bind fun found hfound => ?_
  split
  next text =>
    split
    · exact fail _
    next hdot =>
      have hname : IsDottedName text := hfound _ rfl
      exact ret fun _ _ _ => ⟨rfl, hname.plain (by simpa using hdot)⟩
  next text =>
    have hname : IsAttributeName text := hfound _ rfl
    exact ret fun _ _ _ => ⟨text, rfl, rfl, hname⟩
  · exact fail _

theorem templateParam :
    Builds (Parse.templateParam type) fun p => p.Spelled ∧ WellFormed p.type := by
  refine templateParamName.bind fun ⟨name, spelling, kind⟩ hname => advance.next fun l => ?_
  refine (eat _).next fun optional => (expect _ _).next fun _ => ?_
  exact htype.bind fun e he => ret ⟨hname l _ e, he⟩

theorem templateType : Builds (Parse.templateType fuel type) WellFormed := by
  refine advance.next fun _ => advance.next fun _ => ?_
  refine ((templateParam htype).entries fuel).bind fun params hparams => ?_
  refine (resultType htype).bind fun result hresult => (locate _ _).next fun l => ret ?_
  exact .template l (fun p hp => (hparams p hp).1) (fun p hp => (hparams p hp).2) hresult

theorem genericArguments :
    Builds (Parse.genericArguments fuel type) fun es => ∀ e ∈ es, WellFormed e := by
  refine peek.bind fun found _ => ?_
  split
  · exact ret (by simp)
  · refine htype.bind fun e he => (htype.separated fuel).bind fun es hes => ?_
    exact ret (List.forall_mem_cons.2 ⟨he, hes⟩)

theorem namedType {name : String} (hname : IsDottedName name) :
    Builds (Parse.namedType fuel type name) WellFormed := by
  refine advance.next fun place => ?_
  split
  next value hvalue => exact ret (.literal place (wellFormed_of_keyword (keywordLiteral_eq_some_iff.1 hvalue)))
  next hnone =>
    have hname : IsTypeName name := ⟨hname, keywordLiteral_eq_none_iff.1 hnone⟩
    refine (eat _).next fun found => ?_
    split
    · refine (genericArguments htype).bind fun arguments harguments => ?_
      refine (expect _ _).next fun _ => (locate _ _).next fun l => ?_
      exact ret (.generic l hname harguments)
    · exact ret (.named place hname)

theorem parenthesized : Builds (Parse.parenthesized type) WellFormed :=
  advance.next fun _ => htype.bind fun _ he => (expect _ _).next fun _ => ret he

omit htype in
theorem opensFunction : Builds Parse.opensFunction fun _ => True := by
  refine (lookahead 1).bind fun found _ => ?_
  split
  · exact ret trivial
  · exact ret trivial
  · exact (lookahead 2).bind fun _ _ => ret trivial
  · exact ret trivial

theorem primary : Builds (Parse.primary fuel type) WellFormed := by
  refine peek.bind fun found hfound => ?_
  split
  next name =>
    refine (lookahead 1).bind fun _ _ => ?_
    split
    · exact templateType htype
    · exact namedType htype (hfound _ rfl)
  · exact advance.next fun l => ret (.unknown l)
  · exact advance.next fun l => ret (.literal l trivial)
  next text => exact advance.next fun l => ret (.literal l (.inr (.inr (hfound _ rfl))))
  · exact recordType htype
  · refine opensFunction.next fun opens => ?_
    split
    · exact functionType htype
    · exact parenthesized htype
  · exact fail _

theorem unionType : Builds (Parse.unionType fuel type) WellFormed := by
  have hpostfixed : Builds (Parse.postfixed fuel type) WellFormed :=
    (primary htype).bind fun e he => properties he fuel
  have hintersection : Builds (Parse.intersectionType fuel type) WellFormed :=
    chain hpostfixed fun l _ => .intersection l
  exact chain hintersection fun l _ => .union l

end Rules

theorem typeWithin (fuel depth : Nat) : Builds (Parse.typeWithin fuel depth) WellFormed := by
  induction depth with
  | zero => exact fails _
  | succ depth ih => exact unionType ih

end Builds

theorem Builds.whole (fuel : Nat) : Builds (Parse.whole fuel) WellFormed := by
  refine (typeWithin _ _).bind fun e he => peek.bind fun found _ => ?_
  split
  · exact fail _
  · exact ret he

theorem wellFormed_of_parse {text : String} {file : Option String} {e : TypeExpr}
    (h : parse text file = .ok e) : WellFormed e := by
  rw [parse] at h
  cases hscan : scan text.toList with
  | error fault =>
    rw [hscan] at h
    cases h
  | ok tokens =>
    rw [hscan] at h
    change (Parse.whole tokens.length ⟨file, byteCount text.toList, tokens, 0⟩).map (·.1) = .ok e
      at h
    have hlexical : Cursor.Lexical ⟨file, byteCount text.toList, tokens, 0⟩ :=
      lexical_of_scanFrom (show scanFrom text.toList.length 0 text.toList = .ok tokens from hscan)
    cases hrun : Parse.whole tokens.length ⟨file, byteCount text.toList, tokens, 0⟩ with
    | error fault =>
      rw [hrun] at h
      cases h
    | ok result =>
      rw [hrun] at h
      cases h
      exact (Builds.whole _ _ _ _ hlexical hrun).1

end TemplateCheck.TypeExpr
