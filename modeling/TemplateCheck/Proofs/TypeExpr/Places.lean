import TemplateCheck.Proofs.TypeExpr.Sites

/-! The parser gives each expression the location that its tokens tell. Each rule of the parser has
one lemma about the tokens that a run of it passed, from which its result was read. -/

namespace TemplateCheck.TypeExpr
variable {file : Option String} {d n fuel : Nat} {level : Level} {e m : TypeExpr}
  {ts us vs : List PlacedToken}

structure Passes (c : Cursor) (vs : List PlacedToken) (c' : Cursor) : Prop where
  tokens : c.tokens = vs ++ c'.tokens
  file : c'.file = c.file
  stop : c'.lastStop = (lastStop vs).getD c.lastStop

structure Ready (file : Option String) (n : Nat) (c : Cursor) : Prop where
  file : c.file = file
  length : c.ahead.length ≤ n

section Passing
variable {c c' c'' : Cursor} {t : Token} {found : Bool} {place : Location} {expected : Expected}
  {name : String × Location}

namespace Passes

theorem refl (c : Cursor) : Passes c [] c := ⟨rfl, rfl, rfl⟩

theorem trans (h : Passes c vs c') (h' : Passes c' us c'') : Passes c (vs ++ us) c'' where
  tokens := by rw [h.tokens, h'.tokens, List.append_assoc]
  file := h'.file.trans h.file
  stop := by
    rw [h'.stop, h.stop, lastStop_append]
    cases lastStop us <;> rfl

theorem lastStop (h : Passes c vs c') (hvs : vs ≠ []) :
    TypeExpr.lastStop vs = some c'.lastStop := by
  rw [h.stop, ← List.dropLast_append_getLast hvs, lastStop_append]
  rfl

theorem ahead (h : Passes c vs c') : c.ahead = vs.map (·.token) ++ c'.ahead := by
  rw [Cursor.ahead, h.tokens, List.map_append]
  rfl

theorem ready (h : Passes c vs c') (hc : Ready file n c) : Ready file n c' :=
  ⟨h.file.trans hc.file, length_le_of_append h.ahead hc.length⟩

theorem spells (h : Passes c vs c') (hts : ∃ ts, c.ahead = ts ++ c'.ahead ∧
    Spelled d level ts e c'.ahead) (hd : d + level.slack ≤ nestingLimit) :
    Spells nestingLimit .type .closed (vs.map (·.token)) e := by
  obtain ⟨ts, hts, b, hspells, -⟩ := hts
  obtain rfl := List.append_cancel_right (hts.symm.trans h.ahead)
  exact hspells.whole hd

end Passes

theorem passes_advance (h : Parse.advance.run c = .ok (place, c')) (ht : c.ahead.head? = some t) :
    ∃ p, p.token = t ∧ Passes c [p] c' ∧ place = ⟨c.file, p.start, p.stop⟩ := by
  obtain ⟨next, rest, htokens, rfl, -⟩ := List.map_eq_cons_iff.1 (List.eq_cons_of_mem_head? ht)
  simp only [Parse.advance, StateT.run_bind, StateT.run_get, pure_bind, htokens] at h
  cases h
  exact ⟨next, rfl, ⟨htokens, rfl, rfl⟩, rfl⟩

theorem passes_eat (h : (Parse.eat t).run c = .ok (found, c')) :
    found = true ∧ (∃ p, p.token = t ∧ Passes c [p] c') ∨ found = false ∧ c = c' := by
  rw [Parse.eat, run_peek_bind] at h
  split at h
  next ht =>
    obtain ⟨place, c₁, hadvance, h⟩ := ok_of_bind h
    obtain ⟨rfl, rfl⟩ := ok_of_pure h
    obtain ⟨p, hp, hpasses, -⟩ := passes_advance hadvance ht
    exact .inl ⟨rfl, p, hp, hpasses⟩
  next ht =>
    obtain ⟨rfl, rfl⟩ := ok_of_pure h
    exact .inr ⟨rfl, rfl⟩

theorem passes_mark (h : (Parse.eat t).run c = .ok (found, c')) : ∃ vs, Passes c vs c' := by
  rcases passes_eat h with ⟨-, p, -, hpasses⟩ | ⟨-, rfl⟩
  · exact ⟨[p], hpasses⟩
  · exact ⟨[], .refl _⟩

theorem passes_expect (h : (Parse.expect t expected).run c = .ok (place, c')) :
    ∃ p, p.token = t ∧ Passes c [p] c' ∧ place = ⟨c.file, p.start, p.stop⟩ := by
  rw [Parse.expect, run_peek_bind] at h
  split at h
  next ht => exact passes_advance h ht
  next => exact absurd h run_fail_ne

theorem passes_simpleName (h : (Parse.simpleName expected).run c = .ok (name, c')) :
    ∃ p, Passes c [p] c' ∧ name.2 = ⟨c.file, p.start, p.stop⟩ := by
  rw [Parse.simpleName, run_peek_bind] at h
  split at h
  next text ht =>
    split at h
    next => exact absurd h run_fail_ne
    next hdot =>
      obtain ⟨place, c₁, hadvance, h⟩ := ok_of_bind h
      obtain ⟨rfl, rfl⟩ := ok_of_pure h
      obtain ⟨p, -, hpasses, rfl⟩ := passes_advance hadvance ht
      exact ⟨p, hpasses, rfl⟩
  next => exact absurd h run_fail_ne

end Passing

/-- From at most `n` tokens of a text of this file, the parser passes some with which its result
meets `post`. -/
def Places {α : Type} (file : Option String) (n : Nat) (p : Parse α)
    (post : List PlacedToken → α → Prop) : Prop :=
  ∀ ⦃c a c'⦄, Ready file n c → p.run c = .ok (a, c') → ∃ vs, Passes c vs c' ∧ post vs a

section Rows
variable {α : Type} {item : Parse α} {sep close : Token} {locations : α → List Location}
  {type : α → TypeExpr}

theorem places_separated {operand : Parse TypeExpr} (h : Places file n operand (Sited file)) :
    Places file n (Parse.separated sep operand fuel) fun vs es =>
      Lays file vs (es.map (·.location)) es ∧ (es = [] → vs = []) := by
  intro c es c' hc hrun
  induction fuel generalizing c es with
  | zero =>
    obtain ⟨rfl, rfl⟩ := ok_of_pure hrun
    exact ⟨[], .refl _, .gap [], fun _ => rfl⟩
  | succ fuel ih =>
    obtain ⟨found, c₁, heat, hrun⟩ := ok_of_bind hrun
    rcases passes_eat heat with ⟨rfl, p, -, hsep⟩ | ⟨rfl, rfl⟩
    · obtain ⟨e, c₂, hfirst, hrun⟩ := ok_of_bind hrun
      obtain ⟨others, c₃, hothers, hrun⟩ := ok_of_bind hrun
      obtain ⟨rfl, rfl⟩ := ok_of_pure hrun
      obtain ⟨us, hus, hsited⟩ := h (hsep.ready hc) hfirst
      obtain ⟨vs, hvs, hlays, -⟩ := ih (hus.ready (hsep.ready hc)) hothers
      exact ⟨_, hsep.trans (hus.trans hvs), (hsited.lays.append hlays).prepend [p],
        fun hnil => nomatch hnil⟩
    · obtain ⟨rfl, rfl⟩ := ok_of_pure hrun
      exact ⟨[], .refl _, .gap [], fun _ => rfl⟩

theorem places_entries (h : Places file n item fun vs a => Lays file vs (locations a) [type a]) :
    Places file n (Parse.entries close item fuel) fun vs as =>
      Lays file vs (as.flatMap locations) (as.map type) := by
  intro c as c' hc hrun
  induction fuel generalizing c as with
  | zero =>
    obtain ⟨rfl, rfl⟩ := ok_of_pure hrun
    exact ⟨[], .refl _, .gap []⟩
  | succ fuel ih =>
    rw [Parse.entries, run_peek_bind] at hrun
    split at hrun
    next =>
      obtain ⟨rfl, rfl⟩ := ok_of_pure hrun
      exact ⟨[], .refl _, .gap []⟩
    next =>
      obtain ⟨a, c₁, hfirst, hrun⟩ := ok_of_bind hrun
      obtain ⟨us, hus, hitem⟩ := h hc hfirst
      obtain ⟨found, c₂, heat, hrun⟩ := ok_of_bind hrun
      rcases passes_eat heat with ⟨rfl, p, -, hcomma⟩ | ⟨rfl, rfl⟩
      · obtain ⟨others, c₃, hothers, hrun⟩ := ok_of_bind hrun
        obtain ⟨rfl, rfl⟩ := ok_of_pure hrun
        obtain ⟨vs, hvs, hlays⟩ := ih (hcomma.ready (hus.ready hc)) hothers
        exact ⟨_, hus.trans (hcomma.trans hvs), hitem.append (hlays.prepend [p])⟩
      · obtain ⟨rfl, rfl⟩ := ok_of_pure hrun
        have hall := hitem.append (.gap [])
        rw [List.append_nil] at hall
        exact ⟨us, hus, hall⟩

end Rows

section Rules
variable {type : Parse TypeExpr} {c c' : Cursor} {name : String}

section Items
variable (hplaces : Places file n type (Sited file))
include hplaces

theorem places_typed {place : Location} {c₁ : Cursor} (hc : Ready file n c)
    (hcolon : (Parse.expect .colon .colon).run c = .ok (place, c₁))
    (hrun : type.run c₁ = .ok (e, c')) :
    ∃ vs, Passes c vs c' ∧ Lays file vs [e.location] [e] := by
  obtain ⟨q, -, hsep, -⟩ := passes_expect hcolon
  obtain ⟨vs, hvs, hsited⟩ := hplaces (hsep.ready hc) hrun
  exact ⟨_, hsep.trans hvs, hsited.lays.prepend [q]⟩

theorem places_field : Places file n (Parse.field type) fun vs f =>
    Lays file vs [f.nameLocation, f.type.location] [f.type] := by
  intro c f c' hc h
  obtain ⟨name, c₁, hname, h⟩ := ok_of_bind h
  obtain ⟨optional, c₂, hquestion, h⟩ := ok_of_bind h
  obtain ⟨colon, c₃, hcolon, h⟩ := ok_of_bind h
  obtain ⟨e, c₄, hrun, h⟩ := ok_of_bind h
  obtain ⟨rfl, rfl⟩ := ok_of_pure h
  obtain ⟨p, hpasses, hlocation⟩ := passes_simpleName hname
  obtain ⟨us, hmark⟩ := passes_mark hquestion
  obtain ⟨vs, hvs, hlays⟩ := places_typed hplaces (hmark.ready (hpasses.ready hc)) hcolon hrun
  refine ⟨_, hpasses.trans (hmark.trans hvs), ?_⟩
  rw [hlocation, hc.file]
  exact Lays.token.append (hlays.prepend us)

theorem places_functionParam : Places file n (Parse.functionParam type) fun vs p =>
    Lays file vs [p.nameLocation, p.type.location] [p.type] := by
  intro c p c' hc h
  obtain ⟨variadic, c₁, hdots, h⟩ := ok_of_bind h
  obtain ⟨name, c₂, hname, h⟩ := ok_of_bind h
  obtain ⟨colon, c₃, hcolon, h⟩ := ok_of_bind h
  obtain ⟨e, c₄, hrun, h⟩ := ok_of_bind h
  obtain ⟨rfl, rfl⟩ := ok_of_pure h
  obtain ⟨us, hmark⟩ := passes_mark hdots
  obtain ⟨p, hpasses, hlocation⟩ := passes_simpleName hname
  obtain ⟨vs, hvs, hlays⟩ := places_typed hplaces (hpasses.ready (hmark.ready hc)) hcolon hrun
  refine ⟨_, hmark.trans (hpasses.trans hvs), ?_⟩
  rw [hlocation, (hmark.ready hc).file]
  exact (Lays.token.append hlays).prepend us

theorem places_templateParam : Places file n (Parse.templateParam type) fun vs p =>
    Lays file vs [p.nameLocation, p.type.location] [p.type] := by
  intro c p c' hc h
  obtain ⟨⟨name, spelling, kind⟩, c₁, hname, h⟩ := ok_of_bind h
  obtain ⟨l, c₂, hadvance, h⟩ := ok_of_bind h
  obtain ⟨optional, c₃, hquestion, h⟩ := ok_of_bind h
  obtain ⟨colon, c₄, hcolon, h⟩ := ok_of_bind h
  obtain ⟨e, c₅, hrun, h⟩ := ok_of_bind h
  obtain ⟨rfl, rfl⟩ := ok_of_pure h
  obtain ⟨rfl, hnamed⟩ := ok_of_templateParamName hname
  obtain ⟨-, htoken⟩ := hnamed l (!optional) e
  obtain ⟨p, -, hpasses, rfl⟩ := passes_advance hadvance htoken
  obtain ⟨us, hmark⟩ := passes_mark hquestion
  obtain ⟨vs, hvs, hlays⟩ := places_typed hplaces (hmark.ready (hpasses.ready hc)) hcolon hrun
  refine ⟨_, hpasses.trans (hmark.trans hvs), ?_⟩
  rw [hc.file]
  exact Lays.token.append (hlays.prepend us)

theorem places_signature {result : TypeExpr} {c₁ : Cursor} {a : Nat} {ls : List Location}
    {es : List TypeExpr} (hc : Ready file n c) (hpasses : Passes c vs c₁)
    (hlays : Lays file vs ls es)
    (hresult : (Parse.resultType type).run c₁ = .ok (result, c')) (hstart : firstStart vs = some a)
    (hlocation : e.location = ⟨c'.file, a, result.location.stop⟩)
    (hpieces : e.pieces = ls ++ [result.location]) (hparts : e.parts = es ++ [result])
    (hkind : e.isFunctionLike) (hd : d < nestingLimit)
    (htaken : ∃ ts, c.ahead = ts ++ c'.ahead ∧ Spelled d .primary ts e c'.ahead) :
    ∃ vs, Passes c vs c' ∧ Sited file vs e := by
  obtain ⟨closing, c₂, hclosing, h⟩ := ok_of_bind hresult
  obtain ⟨arrow, c₃, harrow, hrun⟩ := ok_of_bind h
  obtain ⟨p, -, hp, -⟩ := passes_expect hclosing
  obtain ⟨q, -, hq, -⟩ := passes_expect harrow
  have hhead := hpasses.trans (hp.trans hq)
  obtain ⟨us, hus, hsited⟩ := hplaces (hhead.ready hc) hrun
  have hall := hhead.trans hus
  have hsigns := hlays.append (.gap ([p] ++ [q]))
  rw [List.append_nil, List.append_nil] at hsigns
  rw [(hall.ready hc).file] at hlocation
  refine ⟨_, hall, .functionLike hsigns hsited ?_ hlocation hpieces hparts hkind
    (hall.spells htaken hd)⟩
  rw [firstStart_append, hstart, Option.some_or]

theorem places_genericArguments : Places file n (Parse.genericArguments fuel type) fun vs es =>
    Lays file vs (es.map (·.location)) es := by
  intro c es c' hc h
  rw [Parse.genericArguments, run_peek_bind] at h
  split at h
  next =>
    obtain ⟨rfl, rfl⟩ := ok_of_pure h
    exact ⟨[], .refl _, .gap []⟩
  next =>
    obtain ⟨first, c₁, hfirst, h⟩ := ok_of_bind h
    obtain ⟨others, c₂, hothers, h⟩ := ok_of_bind h
    obtain ⟨rfl, rfl⟩ := ok_of_pure h
    obtain ⟨us, hus, hsited⟩ := hplaces hc hfirst
    obtain ⟨vs, hvs, hlays, -⟩ := places_separated hplaces (hus.ready hc) hothers
    exact ⟨_, hus.trans hvs, hsited.lays.append hlays⟩

end Items

variable (htype : Takes fuel type (Spelled d .type)) (hplaces : Places file fuel type (Sited file))
  (hd : d < nestingLimit)
include htype hplaces hd

theorem places_namedType (hc : Ready file fuel c) (hname : c.ahead.head? = some (.name name))
    (h : (Parse.namedType fuel type name).run c = .ok (e, c')) :
    ∃ vs, Passes c vs c' ∧ Sited file vs e := by
  have htaken := takes_namedType htype hc.length hname h
  obtain ⟨place, c₁, hadvance, h⟩ := ok_of_bind h
  obtain ⟨p, -, hpasses, rfl⟩ := passes_advance hadvance hname
  have hcovers : Covers file [p] ⟨c.file, p.start, p.stop⟩ := ⟨hc.file, rfl, rfl⟩
  split at h
  next value hvalue =>
    obtain ⟨rfl, rfl⟩ := ok_of_pure h
    exact ⟨_, hpasses, .closed hcovers (.gap _) (hpasses.spells htaken hd)⟩
  next hnone =>
    obtain ⟨found, c₂, heat, h⟩ := ok_of_bind h
    rcases passes_eat heat with ⟨rfl, q, -, hless⟩ | ⟨rfl, rfl⟩
    · obtain ⟨es, c₃, hes, h⟩ := ok_of_bind h
      obtain ⟨closing, c₄, hclosing, h⟩ := ok_of_bind h
      rw [run_locate_bind] at h
      obtain ⟨rfl, rfl⟩ := ok_of_pure h
      have hhead := hpasses.trans hless
      obtain ⟨vs, hvs, hlays⟩ := places_genericArguments hplaces (hhead.ready hc) hes
      obtain ⟨z, -, hgreater, rfl⟩ := passes_expect hclosing
      have hall := hhead.trans (hvs.trans hgreater)
      refine ⟨_, hall, .closed ?_ ?_ (hall.spells htaken hd)⟩
      · exact ⟨(hall.ready hc).file, by simp [location], by simp [location]⟩
      · have hparts := (hlays.prepend ([p] ++ [q])).append (.gap [z])
        simpa [pieces, parts] using hparts
    · obtain ⟨rfl, rfl⟩ := ok_of_pure h
      exact ⟨_, hpasses, .closed hcovers (.gap _) (hpasses.spells htaken hd)⟩

theorem places_recordType (hc : Ready file fuel c) (hopening : c.ahead.head? = some .openBracket)
    (h : (Parse.recordType fuel type).run c = .ok (e, c')) :
    ∃ vs, Passes c vs c' ∧ Sited file vs e := by
  have htaken := takes_recordType htype hc.length hopening h
  obtain ⟨opening, c₁, hadvance, h⟩ := ok_of_bind h
  obtain ⟨fields, c₂, hfields, h⟩ := ok_of_bind h
  obtain ⟨closing, c₃, hclosing, h⟩ := ok_of_bind h
  rw [run_locate_bind] at h
  obtain ⟨rfl, rfl⟩ := ok_of_pure h
  obtain ⟨p, -, hpasses, rfl⟩ := passes_advance hadvance hopening
  obtain ⟨vs, hvs, hlays⟩ := places_entries (places_field hplaces) (hpasses.ready hc) hfields
  obtain ⟨z, -, hend, rfl⟩ := passes_expect hclosing
  have hall := hpasses.trans (hvs.trans hend)
  refine ⟨_, hall, .closed ?_ ?_ (hall.spells htaken hd)⟩
  · exact ⟨(hall.ready hc).file, by simp [location], by simp [location]⟩
  · have hparts := (hlays.prepend [p]).append (.gap [z])
    simpa [pieces, parts] using hparts

theorem places_functionType (hc : Ready file fuel c) (hopening : c.ahead.head? = some .openParen)
    (h : (Parse.functionType fuel type).run c = .ok (e, c')) :
    ∃ vs, Passes c vs c' ∧ Sited file vs e := by
  have htaken := takes_functionType htype hc.length hopening h
  obtain ⟨opening, c₁, hadvance, h⟩ := ok_of_bind h
  obtain ⟨params, c₂, hparams, h⟩ := ok_of_bind h
  obtain ⟨result, c₃, hresult, h⟩ := ok_of_bind h
  rw [run_locate_bind] at h
  obtain ⟨rfl, rfl⟩ := ok_of_pure h
  obtain ⟨p, -, hpasses, rfl⟩ := passes_advance hadvance hopening
  obtain ⟨vs, hvs, hlays⟩ :=
    places_entries (places_functionParam hplaces) (hpasses.ready hc) hparams
  exact places_signature hplaces hc (hpasses.trans hvs) (hlays.prepend [p]) hresult rfl rfl rfl rfl
    rfl hd htaken

theorem places_templateType (hc : Ready file fuel c)
    (hkeyword : c.ahead.head? = some (.name "template")) (hopening : c.ahead[1]? = some .openParen)
    (h : (Parse.templateType fuel type).run c = .ok (e, c')) :
    ∃ vs, Passes c vs c' ∧ Sited file vs e := by
  have htaken := takes_templateType htype hc.length hkeyword hopening h
  obtain ⟨keyword, c₁, hadvance, h⟩ := ok_of_bind h
  obtain ⟨opening, c₂, hadvance', h⟩ := ok_of_bind h
  obtain ⟨params, c₃, hparams, h⟩ := ok_of_bind h
  obtain ⟨result, c₄, hresult, h⟩ := ok_of_bind h
  rw [run_locate_bind] at h
  obtain ⟨rfl, rfl⟩ := ok_of_pure h
  rw [ahead_of_advance hadvance hkeyword, List.getElem?_cons_succ,
    ← List.head?_eq_getElem?] at hopening
  obtain ⟨p, -, hp, rfl⟩ := passes_advance hadvance hkeyword
  obtain ⟨q, -, hq, -⟩ := passes_advance hadvance' hopening
  have hsigns := hp.trans hq
  obtain ⟨vs, hvs, hlays⟩ :=
    places_entries (places_templateParam hplaces) (hsigns.ready hc) hparams
  exact places_signature hplaces hc (hsigns.trans hvs) (hlays.prepend ([p] ++ [q])) hresult rfl rfl
    rfl rfl rfl hd htaken

omit htype hd in
theorem places_parenthesized (hc : Ready file fuel c) (hopening : c.ahead.head? = some .openParen)
    (h : (Parse.parenthesized type).run c = .ok (e, c')) :
    ∃ vs, Passes c vs c' ∧ Sited file vs e := by
  obtain ⟨opening, c₁, hadvance, h⟩ := ok_of_bind h
  obtain ⟨inner, c₂, hinner, h⟩ := ok_of_bind h
  obtain ⟨closing, c₃, hclosing, h⟩ := ok_of_bind h
  obtain ⟨rfl, rfl⟩ := ok_of_pure h
  obtain ⟨p, hp, hpasses, -⟩ := passes_advance hadvance hopening
  obtain ⟨ts, hts, hsited⟩ := hplaces (hpasses.ready hc) hinner
  obtain ⟨q, hq, hend, -⟩ := passes_expect hclosing
  exact ⟨_, (hpasses.trans hts).trans hend, hsited.parens hp hq⟩

theorem places_primary : Places file fuel (Parse.primary fuel type) (Sited file) := by
  intro c e c' hc h
  have htaken := takes_primary htype hc.length h
  have hleaf {make : Location → TypeExpr} {t : Token} (ht : c.ahead.head? = some t)
      (h : (Parse.advance >>= fun place => pure (make place)).run c = .ok (e, c'))
      (hmake : ∀ l, (make l).location = l ∧ (make l).pieces = [] ∧ (make l).parts = []) :
      ∃ vs, Passes c vs c' ∧ Sited file vs e := by
    obtain ⟨place, c₁, hadvance, h⟩ := ok_of_bind h
    obtain ⟨rfl, rfl⟩ := ok_of_pure h
    obtain ⟨p, -, hpasses, rfl⟩ := passes_advance hadvance ht
    obtain ⟨hlocation, hpieces, hparts⟩ := hmake ⟨c.file, p.start, p.stop⟩
    refine ⟨_, hpasses, .closed ?_ ?_ (hpasses.spells htaken hd)⟩
    · rw [hlocation]
      exact ⟨hc.file, rfl, rfl⟩
    · rw [hpieces, hparts]
      exact .gap _
  rw [Parse.primary, run_peek_bind] at h
  split at h
  next name hname =>
    rw [run_lookahead_bind] at h
    split at h
    next htemplate =>
      obtain ⟨rfl, hopening⟩ := htemplate
      exact places_templateType htype hplaces hd hc hname hopening h
    next => exact places_namedType htype hplaces hd hc hname h
  next hquestion => exact hleaf hquestion h fun _ => ⟨rfl, rfl, rfl⟩
  next value hvalue => exact hleaf hvalue h fun _ => ⟨rfl, rfl, rfl⟩
  next text htext => exact hleaf htext h fun _ => ⟨rfl, rfl, rfl⟩
  next hopening => exact places_recordType htype hplaces hd hc hopening h
  next hopening =>
    obtain ⟨opens, c₁, hopens, h⟩ := ok_of_bind h
    obtain rfl := ahead_of_opensFunction hopens
    split at h
    next => exact places_functionType htype hplaces hd hc hopening h
    next => exact places_parenthesized hplaces hc hopening h
  next => exact absurd h run_fail_ne

omit htype hplaces hd in
theorem sited_foldl {l : Location} (path : List String) (h : Sited file ts e) (hl : e.location = l)
    (hfile : l.file = file) (hstop : lastStop ts = some l.stop) :
    Sited file ts (path.foldl (fun base p => .indexed l base p) e) := by
  induction path generalizing e with
  | nil => exact h
  | cons p path ih =>
    refine ih (e := .indexed l e p) ?_ rfl
    have hall : Sited file (ts ++ []) (.indexed l e p) := by
      refine h.operation (.gap []) (by simpa using hstop) ?_ rfl rfl rfl fun hnot => nomatch hnot
      rw [hl, ← hfile]
      rfl
    rwa [List.append_nil] at hall

omit htype hplaces hd in
theorem places_properties {k : Nat} (hc : c.file = file) (hbase : Sited file ts e)
    (h : (Parse.properties k e).run c = .ok (m, c')) :
    ∃ vs, Passes c vs c' ∧ Sited file (ts ++ vs) m := by
  induction k generalizing c e ts with
  | zero =>
    obtain ⟨rfl, rfl⟩ := ok_of_pure h
    exact ⟨[], .refl _, by rwa [List.append_nil]⟩
  | succ k ih =>
    obtain ⟨found, c₁, heat, h⟩ := ok_of_bind h
    rcases passes_eat heat with ⟨rfl, p, -, hdot⟩ | ⟨rfl, rfl⟩
    · rw [if_pos rfl, run_peek_bind] at h
      split at h
      next path hpath =>
        obtain ⟨place, c₂, hadvance, h⟩ := ok_of_bind h
        obtain ⟨q, -, hname, rfl⟩ := passes_advance hadvance hpath
        rw [run_locate_bind] at h
        have hpasses := hdot.trans hname
        have hfile : c₂.file = file := hpasses.file.trans hc
        obtain ⟨first, parts, hsplit, -⟩ := splitAtChar_cons '.' '.' path.toList
        rw [Text.segments, hsplit, List.map_cons, List.foldl_cons, hfile] at h
        have hstop : lastStop (ts ++ ([p] ++ [q])) = some q.stop := by simp
        have haccess : Sited file (ts ++ ([p] ++ [q]))
            (.indexed ⟨file, e.location.start, q.stop⟩ e (String.ofList first)) :=
          hbase.operation (.gap _) hstop rfl rfl rfl rfl fun hnot => nomatch hnot
        obtain ⟨vs, hvs, hsited⟩ := ih hfile (sited_foldl _ haccess rfl rfl hstop) h
        refine ⟨_, hpasses.trans hvs, ?_⟩
        rwa [← List.append_assoc]
      next => exact absurd h run_fail_ne
    · obtain ⟨rfl, rfl⟩ := ok_of_pure h
      exact ⟨[], .refl _, by rwa [List.append_nil]⟩

theorem places_postfixed : Places file fuel (Parse.postfixed fuel type) (Sited file) := by
  intro c e c' hc h
  obtain ⟨base, c₁, hbase, h⟩ := ok_of_bind h
  obtain ⟨ts, hts, hsited⟩ := places_primary htype hplaces hd hc hbase
  obtain ⟨vs, hvs, hsited⟩ := places_properties (hts.ready hc).file hsited h
  exact ⟨_, hts.trans hvs, hsited⟩

omit htype hplaces hd in
theorem places_chain {operand : Parse TypeExpr} {sep : Token}
    {make : Location → List TypeExpr → TypeExpr} (hmake : make = union ∨ make = intersection)
    (hoperand : Places file fuel operand (Sited file))
    (htakes : Takes fuel (Parse.chain fuel sep make operand) (Spelled d level))
    (hd : d + level.slack ≤ nestingLimit) :
    Places file fuel (Parse.chain fuel sep make operand) (Sited file) := by
  intro c e c' hc h
  have htaken := htakes hc.length h
  obtain ⟨first, c₁, hfirst, h⟩ := ok_of_bind h
  obtain ⟨ts, hts, hsited⟩ := hoperand hc hfirst
  obtain ⟨others, c₂, hothers, h⟩ := ok_of_bind h
  obtain ⟨vs, hvs, hlays, hnil⟩ := places_separated hoperand (hts.ready hc) hothers
  have hall := hts.trans hvs
  split at h
  next hnone =>
    obtain ⟨rfl, rfl⟩ := ok_of_pure h
    obtain rfl := hnil (List.isEmpty_iff.1 hnone)
    exact ⟨_, hall, by rwa [List.append_nil]⟩
  next =>
    obtain ⟨state, c₃, hstate, h⟩ := ok_of_bind h
    cases hstate
    rw [run_locate_bind] at h
    obtain ⟨rfl, rfl⟩ := ok_of_pure h
    have hstop : lastStop (ts ++ vs) = some c'.lastStop :=
      hall.lastStop (List.append_ne_nil_of_left_ne_nil hsited.ne_nil vs)
    have hfile := (hall.ready hc).file
    refine ⟨_, hall, ?_⟩
    rcases hmake with rfl | rfl
    · refine hsited.operation hlays hstop ?_ rfl rfl rfl fun _ => hall.spells htaken hd
      rw [location, hfile]
    · refine hsited.operation hlays hstop ?_ rfl rfl rfl fun _ => hall.spells htaken hd
      rw [location, hfile]

theorem places_unionType : Places file fuel (Parse.unionType fuel type) (Sited file) :=
  have hpostfixed := places_postfixed htype hplaces hd
  have hinter := places_chain (.inr rfl) hpostfixed (takes_intersectionType htype) hd
  places_chain (.inl rfl) hinter (takes_unionType htype) hd

end Rules

theorem places_typeWithin {depth : Nat} (h : depth ≤ nestingLimit) :
    Places file fuel (Parse.typeWithin fuel depth) (Sited file) := by
  induction depth with
  | zero =>
    intro c e c' _ h
    exact absurd h (run_failWith_ne _)
  | succ depth ih =>
    exact places_unionType (takes_typeWithin fuel depth) (ih (Nat.le_of_succ_le h)) h

theorem sited_of_ofTokens {size : Nat} {tokens : List PlacedToken}
    (h : ofTokens file size tokens = .ok e) : Sited file tokens e := by
  rw [ofTokens, StateT.run'_eq] at h
  cases hrun : (Parse.whole tokens.length).run ⟨file, size, tokens, 0⟩ with
  | error fault =>
    rw [hrun] at h
    cases h
  | ok result =>
    obtain ⟨m, c'⟩ := result
    rw [hrun] at h
    cases h
    obtain ⟨e, c₁, htype, hwhole⟩ := ok_of_bind hrun
    have hready : Ready file tokens.length ⟨file, size, tokens, 0⟩ :=
      ⟨rfl, Nat.le_of_eq (List.length_map ..)⟩
    obtain ⟨ts, hts, hsited⟩ := places_typeWithin (Nat.le_refl _) hready htype
    rw [run_peek_bind] at hwhole
    split at hwhole
    next => exact absurd hwhole run_fail_ne
    next hnone =>
      obtain ⟨rfl, rfl⟩ := ok_of_pure hwhole
      have hnil : c'.tokens = [] := by simpa [Cursor.ahead] using hnone
      have htokens : tokens = ts ++ c'.tokens := hts.tokens
      rw [htokens, hnil, List.append_nil]
      exact hsited

theorem sited_of_parse {text : String} (h : parse text file = .ok e) :
    ∃ tokens, Tokenized 0 text.toList tokens ∧ Sited file tokens e := by
  rw [parse] at h
  cases hscan : scan text.toList with
  | error fault =>
    rw [hscan] at h
    cases h
  | ok tokens =>
    rw [hscan] at h
    exact ⟨tokens, tokenized_of_scan hscan, sited_of_ofTokens h⟩

end TemplateCheck.TypeExpr
