import TemplateCheck.Proofs.TypeExpr.Completeness
import TemplateCheck.Proofs.TypeExpr.Taking

/-! The grammar spells what the parser reads: the tokens that a rule took spell its result, and no
operator is left behind that would have continued it. -/

namespace TemplateCheck.TypeExpr
variable {d fuel : Nat} {level : Level} {b : Ending} {t : Token} {ts us rest : List Token}
  {e m : TypeExpr}

def operators : List Token := [.dot, .ampersand, .bar]

def Halts (level : Level) (ending : Ending) (rest : List Token) : Prop :=
  ∀ t ∈ operators, t ∈ continuations level ending → rest.head? ≠ some t

def Spelled (d : Nat) (level : Level) (ts : List Token) (e : TypeExpr) (rest : List Token) : Prop :=
  ∃ b, Spells d level b ts e ∧ Halts level b rest

theorem halts_primary_closed (rest : List Token) : Halts .primary .closed rest := by
  intro t hop ht
  have hnone : ∀ t ∈ operators, t ∉ continuations .primary .closed := by decide
  exact absurd ht (hnone t hop)

theorem Halts.closed (h : Halts level b (t :: rest)) (hop : t ∈ operators)
    (hlevel : level ≠ .type) : b = .closed := by
  cases b with
  | closed => rfl
  | result =>
    have hall : t ∈ continuations level .result := by
      have htypes : ∀ u ∈ operators, u ∈ continuations .primary .result := by decide
      cases level with
      | type => exact absurd rfl hlevel
      | inter | post | primary => exact htypes t hop
    exact absurd rfl (h t hop hall)

theorem Halts.step {level' : Level} {b' : Ending} (h : Halts level b rest)
    (hne : rest.head? ≠ some t)
    (hstep : ∀ u ∈ operators, u ∈ continuations level' b' → u ∈ t :: continuations level b) :
    Halts level' b' rest := by
  intro u hop hu
  rcases List.mem_cons.1 (hstep u hop hu) with rfl | hu
  · exact hne
  · exact h u hop hu

theorem Halts.post (h : Halts .primary b rest) (hdot : rest.head? ≠ some .dot) :
    Halts .post b rest := h.step hdot (by cases b <;> decide)

theorem Halts.inter (h : Halts .post b rest) (hampersand : rest.head? ≠ some .ampersand) :
    Halts .inter b rest := h.step hampersand (by cases b <;> decide)

theorem Halts.type (h : Halts .inter b rest) (hbar : rest.head? ≠ some .bar) :
    Halts .type .closed rest := h.step hbar (by cases b <;> decide)

theorem Spells.type_closed (h : Spells d .type b ts e) : b = .closed := by
  cases h with
  | single => rfl
  | union => rfl

theorem Spelled.type (h : Spelled d .type ts e rest) :
    Spells d .type .closed ts e ∧ Halts .type .closed rest := by
  obtain ⟨b, hspells, hhalts⟩ := h
  obtain rfl := hspells.type_closed
  exact ⟨hspells, hhalts⟩

section Combinators
variable {P : List Token → TypeExpr → List Token → Prop} {operand : Parse TypeExpr} {sep : Token}
  {make : Location → List TypeExpr → TypeExpr} {c c' : Cursor} {found : Bool}

theorem ahead_of_question (h : (Parse.eat .question).run c = .ok (found, c')) :
    c.ahead = optionalMark found ++ c'.ahead := by
  rcases ok_of_eat h with ⟨rfl, hahead⟩ | ⟨rfl, rfl, -⟩
  · exact hahead
  · rfl

theorem takes_chain (hoperand : Takes fuel operand P) :
    Takes fuel (Parse.chain fuel sep make operand) fun ts e rest =>
      P ts e rest ∧ rest.head? ≠ some sep ∨
        ∃ l init last, init ≠ [] ∧ IsRow sep P init last rest ∧
          ts = separate sep (init.map (·.1) ++ [last.1]) ∧
          e = make l (init.map (·.2) ++ [last.2]) := by
  intro c e c' hn h
  obtain ⟨first, c₁, hfirst, h⟩ := ok_of_bind h
  obtain ⟨ts, hts, hP⟩ := hoperand hn hfirst
  have hn₁ := length_le_of_append hts hn
  obtain ⟨others, c₂, hothers, h⟩ := ok_of_bind h
  rcases ok_of_separated hoperand hn₁ hn₁ hothers with
    ⟨rfl, heq, hstops⟩ | ⟨init, last, hrow, rfl, heq⟩
  · obtain ⟨rfl, rfl⟩ := ok_of_pure h
    rw [← heq] at hts hP hstops
    exact ⟨ts, hts, .inl ⟨hP, hstops⟩⟩
  · rw [if_neg (by simp)] at h
    obtain ⟨state, c₃, hstate, h⟩ := ok_of_bind h
    cases hstate
    rw [run_locate_bind] at h
    obtain ⟨rfl, rfl⟩ := ok_of_pure h
    have hrow' : IsRow sep P ((ts, first) :: init) last c'.ahead :=
      ⟨List.forall_mem_cons.2 ⟨⟨_, heq ▸ hP⟩, hrow.init⟩, hrow.last, hrow.stops⟩
    refine ⟨_, ?_, .inr ⟨_, _, last, List.cons_ne_nil _ _, hrow', rfl, rfl⟩⟩
    rw [hts, heq, List.map_cons, List.cons_append, Reads.separate_cons _ _ (by simp),
      List.append_assoc, List.cons_append]

theorem accessed_foldl (l : Location) (path : List String) (e : TypeExpr) :
    Accessed e path (path.foldl (fun base p => .indexed l base p) e) := by
  induction path generalizing e with
  | nil => exact .done e
  | cons p path ih => exact .step l (ih _)

theorem Accessed.trans {ps qs : List String} {k : TypeExpr} (h : Accessed e ps k)
    (h' : Accessed k qs m) : Accessed e (ps ++ qs) m := by
  induction h with
  | done e => exact h'
  | step l _ ih => exact .step l (ih h')

theorem ok_of_properties (hfuel : c.ahead.length ≤ fuel)
    (h : (Parse.properties fuel e).run c = .ok (m, c')) :
    ∃ paths : List String, Accessed e (paths.flatMap Text.segments) m ∧
      c.ahead = (paths.flatMap fun p => [.dot, .name p]) ++ c'.ahead ∧
      c'.ahead.head? ≠ some .dot := by
  induction fuel generalizing c e with
  | zero =>
    obtain ⟨rfl, rfl⟩ := ok_of_pure h
    have hnil : c'.ahead = [] := List.eq_nil_of_length_eq_zero (Nat.le_zero.1 hfuel)
    exact ⟨[], .done _, rfl, by simp [hnil]⟩
  | succ fuel ih =>
    obtain ⟨found, c₁, heat, h⟩ := ok_of_bind h
    rcases ok_of_eat heat with ⟨rfl, hdot⟩ | ⟨rfl, rfl, hdot⟩
    · rw [if_pos rfl, run_peek_bind] at h
      split at h
      next path hpath =>
        obtain ⟨place, c₂, hadvance, h⟩ := ok_of_bind h
        have hname := ahead_of_advance hadvance hpath
        rw [run_locate_bind] at h
        have hfuel₂ : c₂.ahead.length ≤ fuel := by
          rw [hdot, hname, List.length_cons, List.length_cons] at hfuel
          omega
        obtain ⟨paths, haccessed, hahead, hstops⟩ := ih hfuel₂ h
        refine ⟨path :: paths, (accessed_foldl _ _ e).trans haccessed, ?_, hstops⟩
        rw [hdot, hname, hahead]
        rfl
      next => exact absurd h run_fail_ne
    · obtain ⟨rfl, rfl⟩ := ok_of_pure h
      exact ⟨[], .done _, rfl, hdot⟩

end Combinators

section Rules
variable {type : Parse TypeExpr}

section Entries
variable {n : Nat} (htype : Takes n type (Spelled d .type))
include htype

theorem takes_field : Takes n (Parse.field type) fun ts f _ => ∃ us, ts = fieldHead f ++ us ∧
    Text.isDotted f.name = false ∧ Spells d .type .closed us f.type := by
  intro c f c' hn h
  obtain ⟨name, c₁, hname, h⟩ := ok_of_bind h
  obtain ⟨optional, c₂, hquestion, h⟩ := ok_of_bind h
  obtain ⟨colon, c₃, hcolon, h⟩ := ok_of_bind h
  obtain ⟨e, c₄, hrun, h⟩ := ok_of_bind h
  obtain ⟨rfl, rfl⟩ := ok_of_pure h
  obtain ⟨hname, hdot⟩ := ahead_of_simpleName hname
  have hhead : c.ahead = fieldHead ⟨name.1, name.2, optional, e⟩ ++ c₃.ahead := by
    rw [hname, ahead_of_question hquestion, ahead_of_expect hcolon, fieldHead, List.cons_append,
      List.append_assoc, List.singleton_append]
  obtain ⟨us, hus, hspelled⟩ := htype (length_le_of_append hhead hn) hrun
  exact ⟨_, by rw [hhead, hus, ← List.append_assoc], us, rfl, hdot, hspelled.type.1⟩

theorem takes_functionParam : Takes n (Parse.functionParam type) fun ts p _ =>
    ∃ us, ts = functionParamHead p ++ us ∧ p.Named ∧ Spells d .type .closed us p.type := by
  intro c p c' hn h
  obtain ⟨variadic, c₁, hdots, h⟩ := ok_of_bind h
  obtain ⟨name, c₂, hname, h⟩ := ok_of_bind h
  obtain ⟨colon, c₃, hcolon, h⟩ := ok_of_bind h
  obtain ⟨e, c₄, hrun, h⟩ := ok_of_bind h
  obtain ⟨rfl, rfl⟩ := ok_of_pure h
  obtain ⟨hname, hdot⟩ := ahead_of_simpleName hname
  have hvariadic : c.ahead = (if variadic then [.ellipsis] else []) ++ c₁.ahead := by
    rcases ok_of_eat hdots with ⟨rfl, hahead⟩ | ⟨rfl, rfl, -⟩
    · exact hahead
    · rfl
  have hhead : c.ahead = functionParamHead ⟨name.1, name.1, name.2, variadic, e⟩ ++ c₃.ahead := by
    rw [hvariadic, hname, ahead_of_expect hcolon, functionParamHead, List.append_assoc]
    rfl
  obtain ⟨us, hus, hspelled⟩ := htype (length_le_of_append hhead hn) hrun
  exact ⟨_, by rw [hhead, hus, ← List.append_assoc], us, rfl, ⟨rfl, hdot⟩, hspelled.type.1⟩

omit htype in
theorem ok_of_templateParamName {c c' : Cursor} {name spelling : String} {kind : ParameterKind}
    (h : Parse.templateParamName.run c = .ok ((name, spelling, kind), c')) :
    c' = c ∧ ∀ l required (e : TypeExpr),
      TemplateParam.Named ⟨name, spelling, l, kind, required, e⟩ ∧
      c.ahead.head? = some (paramToken ⟨name, spelling, l, kind, required, e⟩) := by
  rw [Parse.templateParamName, run_peek_bind] at h
  split at h
  next text htext =>
    split at h
    next => exact absurd h run_fail_ne
    next hdot =>
      obtain ⟨heq, rfl⟩ := ok_of_pure h
      cases heq
      exact ⟨rfl, fun _ _ _ => ⟨⟨rfl, by simpa using hdot⟩, htext⟩⟩
  next text htext =>
    obtain ⟨heq, rfl⟩ := ok_of_pure h
    cases heq
    refine ⟨rfl, fun _ _ _ => ⟨⟨text, rfl, rfl⟩, ?_⟩⟩
    rw [htext]
    simp [paramToken]
  next => exact absurd h run_fail_ne

theorem takes_templateParam : Takes n (Parse.templateParam type) fun ts p _ =>
    ∃ us, ts = templateParamHead p ++ us ∧ p.Named ∧ Spells d .type .closed us p.type := by
  intro c p c' hn h
  obtain ⟨⟨name, spelling, kind⟩, c₁, hname, h⟩ := ok_of_bind h
  obtain ⟨l, c₂, hadvance, h⟩ := ok_of_bind h
  obtain ⟨optional, c₃, hquestion, h⟩ := ok_of_bind h
  obtain ⟨colon, c₄, hcolon, h⟩ := ok_of_bind h
  obtain ⟨e, c₅, hrun, h⟩ := ok_of_bind h
  obtain ⟨rfl, rfl⟩ := ok_of_pure h
  obtain ⟨rfl, hnamed⟩ := ok_of_templateParamName hname
  obtain ⟨hnamed, htoken⟩ := hnamed l (!optional) e
  have hhead : c₁.ahead =
      templateParamHead ⟨name, spelling, l, kind, !optional, e⟩ ++ c₄.ahead := by
    rw [ahead_of_advance hadvance htoken, ahead_of_question hquestion, ahead_of_expect hcolon,
      templateParamHead, List.cons_append, List.append_assoc, List.singleton_append, Bool.not_not]
  obtain ⟨us, hus, hspelled⟩ := htype (length_le_of_append hhead hn) hrun
  exact ⟨_, by rw [hhead, hus, ← List.append_assoc], us, rfl, hnamed, hspelled.type.1⟩

theorem takes_resultType : Takes n (Parse.resultType type) fun ts e rest =>
    ∃ us, ts = .closeParen :: .arrow :: us ∧ Spells d .type .closed us e ∧
      Halts .primary .result rest := by
  intro c e c' hn h
  obtain ⟨closing, c₁, hclosing, h⟩ := ok_of_bind h
  obtain ⟨arrow, c₂, harrow, h⟩ := ok_of_bind h
  have hhead : c.ahead = [.closeParen, .arrow] ++ c₂.ahead := by
    rw [ahead_of_expect hclosing, ahead_of_expect harrow]
    rfl
  obtain ⟨us, hus, hspelled⟩ := htype (length_le_of_append hhead hn) h
  exact ⟨_, by rw [hhead, hus]; rfl, us, rfl, hspelled.type⟩

end Entries

variable (htype : Takes fuel type (Spelled d .type))
include htype

theorem takes_genericArguments : Takes fuel (Parse.genericArguments fuel type) fun ts es _ =>
    ∃ arguments : List (List Token × TypeExpr), es = arguments.map (·.2) ∧
      ts = separate .comma (arguments.map (·.1)) ∧
      ∀ p ∈ arguments, Spells d .type .closed p.1 p.2 := by
  intro c es c' hn h
  rw [Parse.genericArguments, run_peek_bind] at h
  split at h
  next =>
    obtain ⟨rfl, rfl⟩ := ok_of_pure h
    exact ⟨[], rfl, [], rfl, rfl, by simp⟩
  next =>
    obtain ⟨first, c₁, hfirst, h⟩ := ok_of_bind h
    obtain ⟨others, c₂, hothers, h⟩ := ok_of_bind h
    obtain ⟨rfl, rfl⟩ := ok_of_pure h
    obtain ⟨ts, hts, hspelled⟩ := htype hn hfirst
    have hn₁ := length_le_of_append hts hn
    rcases ok_of_separated htype hn₁ hn₁ hothers with
      ⟨rfl, heq, -⟩ | ⟨init, last, hrow, rfl, heq⟩
    · exact ⟨ts, by rw [heq, hts], [(ts, first)], rfl, rfl, by simpa using hspelled.type.1⟩
    · have harguments : ∀ p ∈ (ts, first) :: (init ++ [last]), Spells d .type .closed p.1 p.2 := by
        rw [List.forall_mem_cons, List.forall_mem_append]
        refine ⟨hspelled.type.1, fun p hp => ?_, ?_⟩
        · obtain ⟨more, hp⟩ := hrow.init p hp
          exact hp.type.1
        · exact List.forall_mem_singleton.2 hrow.last.type.1
      refine ⟨_, ?_, _, by simp, rfl, harguments⟩
      rw [hts, heq, List.map_cons, List.map_append, List.map_singleton,
        Reads.separate_cons _ _ (by simp), List.append_assoc, List.cons_append]

theorem takes_namedType {c c' : Cursor} {name : String} (hn : c.ahead.length ≤ fuel)
    (hname : c.ahead.head? = some (.name name))
    (h : (Parse.namedType fuel type name).run c = .ok (e, c')) :
    ∃ ts, c.ahead = ts ++ c'.ahead ∧ Spelled d .primary ts e c'.ahead := by
  obtain ⟨place, c₁, hadvance, h⟩ := ok_of_bind h
  have hahead := ahead_of_advance hadvance hname
  have hn₁ : c₁.ahead.length ≤ fuel := length_le_of_cons hahead hn
  split at h
  next value hvalue =>
    obtain ⟨rfl, rfl⟩ := ok_of_pure h
    exact ⟨_, hahead, .closed, .keyword place (keywordLiteral_eq_some_iff.1 hvalue),
      halts_primary_closed _⟩
  next hnone =>
    have hnone := keywordLiteral_eq_none_iff.1 hnone
    obtain ⟨found, c₂, heat, h⟩ := ok_of_bind h
    rcases ok_of_eat heat with ⟨rfl, hless⟩ | ⟨rfl, rfl, -⟩
    · obtain ⟨es, c₃, hes, h⟩ := ok_of_bind h
      obtain ⟨closing, c₄, hclosing, h⟩ := ok_of_bind h
      rw [run_locate_bind] at h
      obtain ⟨rfl, rfl⟩ := ok_of_pure h
      have hn₂ : c₂.ahead.length ≤ fuel := length_le_of_cons hless hn₁
      obtain ⟨ts, hts, arguments, rfl, rfl, harguments⟩ := takes_genericArguments htype hn₂ hes
      refine ⟨_, ?_, .closed, .generic _ hnone arguments harguments, halts_primary_closed _⟩
      rw [hahead, hless, hts, ahead_of_expect hclosing]
      simp
    · obtain ⟨rfl, rfl⟩ := ok_of_pure h
      exact ⟨_, hahead, .closed, .named place hnone, halts_primary_closed _⟩

theorem takes_recordType {c c' : Cursor} (hn : c.ahead.length ≤ fuel)
    (hopening : c.ahead.head? = some .openBracket)
    (h : (Parse.recordType fuel type).run c = .ok (e, c')) :
    ∃ ts, c.ahead = ts ++ c'.ahead ∧ Spelled d .primary ts e c'.ahead := by
  obtain ⟨opening, c₁, hadvance, h⟩ := ok_of_bind h
  obtain ⟨fields, c₂, hfields, h⟩ := ok_of_bind h
  obtain ⟨closing, c₃, hclosing, h⟩ := ok_of_bind h
  rw [run_locate_bind] at h
  obtain ⟨rfl, rfl⟩ := ok_of_pure h
  have hahead := ahead_of_advance hadvance hopening
  have hn₁ : c₁.ahead.length ≤ fuel := length_le_of_cons hahead hn
  obtain ⟨parts, trailing, rfl, hparts, heq⟩ := ok_of_entries (takes_field htype) hn₁ hfields
  refine ⟨_, ?_, .closed, .record _ parts trailing (fun p hp => (hparts p hp).1)
    (fun p hp => (hparts p hp).2), halts_primary_closed _⟩
  rw [hahead, heq, ahead_of_expect hclosing]
  simp

theorem takes_functionType {c c' : Cursor} (hn : c.ahead.length ≤ fuel)
    (hopening : c.ahead.head? = some .openParen)
    (h : (Parse.functionType fuel type).run c = .ok (e, c')) :
    ∃ ts, c.ahead = ts ++ c'.ahead ∧ Spelled d .primary ts e c'.ahead := by
  obtain ⟨opening, c₁, hadvance, h⟩ := ok_of_bind h
  obtain ⟨params, c₂, hparams, h⟩ := ok_of_bind h
  obtain ⟨result, c₃, hresult, h⟩ := ok_of_bind h
  rw [run_locate_bind] at h
  obtain ⟨rfl, rfl⟩ := ok_of_pure h
  have hahead := ahead_of_advance hadvance hopening
  have hn₁ : c₁.ahead.length ≤ fuel := length_le_of_cons hahead hn
  obtain ⟨parts, trailing, rfl, hparts, heq⟩ :=
    ok_of_entries (takes_functionParam htype) hn₁ hparams
  obtain ⟨_, hts, us, rfl, hspells, hhalts⟩ :=
    takes_resultType htype (length_le_of_append heq hn₁) hresult
  refine ⟨_, ?_, .result, .function _ parts trailing (fun p hp => (hparts p hp).1)
    (fun p hp => (hparts p hp).2) hspells, hhalts⟩
  rw [hahead, heq, hts]
  simp

theorem takes_templateType {c c' : Cursor} (hn : c.ahead.length ≤ fuel)
    (hkeyword : c.ahead.head? = some (.name "template")) (hopening : c.ahead[1]? = some .openParen)
    (h : (Parse.templateType fuel type).run c = .ok (e, c')) :
    ∃ ts, c.ahead = ts ++ c'.ahead ∧ Spelled d .primary ts e c'.ahead := by
  obtain ⟨keyword, c₁, hadvance, h⟩ := ok_of_bind h
  obtain ⟨opening, c₂, hadvance', h⟩ := ok_of_bind h
  obtain ⟨params, c₃, hparams, h⟩ := ok_of_bind h
  obtain ⟨result, c₄, hresult, h⟩ := ok_of_bind h
  rw [run_locate_bind] at h
  obtain ⟨rfl, rfl⟩ := ok_of_pure h
  have hahead := ahead_of_advance hadvance hkeyword
  rw [hahead, List.getElem?_cons_succ, ← List.head?_eq_getElem?] at hopening
  have hahead' := ahead_of_advance hadvance' hopening
  have hn₁ : c₁.ahead.length ≤ fuel := length_le_of_cons hahead hn
  have hn₂ : c₂.ahead.length ≤ fuel := length_le_of_cons hahead' hn₁
  obtain ⟨parts, trailing, rfl, hparts, heq⟩ :=
    ok_of_entries (takes_templateParam htype) hn₂ hparams
  obtain ⟨_, hts, us, rfl, hspells, hhalts⟩ :=
    takes_resultType htype (length_le_of_append heq hn₂) hresult
  refine ⟨_, ?_, .result, .template _ parts trailing (fun p hp => (hparts p hp).1)
    (fun p hp => (hparts p hp).2) hspells, hhalts⟩
  rw [hahead, hahead', heq, hts]
  simp

theorem takes_parenthesized {c c' : Cursor} (hn : c.ahead.length ≤ fuel)
    (hopening : c.ahead.head? = some .openParen)
    (h : (Parse.parenthesized type).run c = .ok (e, c')) :
    ∃ ts, c.ahead = ts ++ c'.ahead ∧ Spelled d .primary ts e c'.ahead := by
  obtain ⟨opening, c₁, hadvance, h⟩ := ok_of_bind h
  obtain ⟨inner, c₂, hinner, h⟩ := ok_of_bind h
  obtain ⟨closing, c₃, hclosing, h⟩ := ok_of_bind h
  obtain ⟨rfl, rfl⟩ := ok_of_pure h
  have hahead := ahead_of_advance hadvance hopening
  have hn₁ : c₁.ahead.length ≤ fuel := length_le_of_cons hahead hn
  obtain ⟨ts, hts, hspelled⟩ := htype hn₁ hinner
  refine ⟨_, ?_, .closed, .parens hspelled.type.1, halts_primary_closed _⟩
  rw [hahead, hts, ahead_of_expect hclosing]
  simp

omit htype in
theorem ahead_of_opensFunction {c c' : Cursor} {opens : Bool}
    (h : Parse.opensFunction.run c = .ok (opens, c')) : c = c' := by
  rw [Parse.opensFunction, run_lookahead_bind] at h
  split at h
  next => exact (ok_of_pure h).2.symm
  next => exact (ok_of_pure h).2.symm
  next =>
    rw [run_lookahead_bind] at h
    exact (ok_of_pure h).2.symm
  next => exact (ok_of_pure h).2.symm

theorem takes_primary : Takes fuel (Parse.primary fuel type) (Spelled d .primary) := by
  intro c e c' hn h
  rw [Parse.primary, run_peek_bind] at h
  split at h
  next name hname =>
    rw [run_lookahead_bind] at h
    split at h
    next htemplate =>
      obtain ⟨rfl, hopening⟩ := htemplate
      exact takes_templateType htype hn hname hopening h
    next => exact takes_namedType htype hn hname h
  next hquestion =>
    obtain ⟨place, c₁, hadvance, h⟩ := ok_of_bind h
    obtain ⟨rfl, rfl⟩ := ok_of_pure h
    exact ⟨_, ahead_of_advance hadvance hquestion, .closed, .unknown place, halts_primary_closed _⟩
  next value hvalue =>
    obtain ⟨place, c₁, hadvance, h⟩ := ok_of_bind h
    obtain ⟨rfl, rfl⟩ := ok_of_pure h
    exact ⟨_, ahead_of_advance hadvance hvalue, .closed, .quoted place value,
      halts_primary_closed _⟩
  next text htext =>
    obtain ⟨place, c₁, hadvance, h⟩ := ok_of_bind h
    obtain ⟨rfl, rfl⟩ := ok_of_pure h
    exact ⟨_, ahead_of_advance hadvance htext, .closed, .number place text, halts_primary_closed _⟩
  next hopening => exact takes_recordType htype hn hopening h
  next hopening =>
    obtain ⟨opens, c₁, hopens, h⟩ := ok_of_bind h
    obtain rfl := ahead_of_opensFunction hopens
    split at h
    next => exact takes_functionType htype hn hopening h
    next => exact takes_parenthesized htype hn hopening h
  next => exact absurd h run_fail_ne

theorem takes_postfixed : Takes fuel (Parse.postfixed fuel type) (Spelled d .post) := by
  intro c e c' hn h
  obtain ⟨base, c₁, hbase, h⟩ := ok_of_bind h
  obtain ⟨ts, hts, b, hspells, hhalts⟩ := takes_primary htype hn hbase
  obtain ⟨paths, haccessed, hahead, hdot⟩ := ok_of_properties (length_le_of_append hts hn) h
  cases paths with
  | nil =>
    cases haccessed with
    | done =>
      rw [hahead] at hts hhalts
      exact ⟨ts, hts, b, .plain hspells, hhalts.post hdot⟩
  | cons path paths =>
    -- A function would have taken the dot as a part of its result.
    rw [hahead] at hhalts
    obtain rfl : b = .closed := hhalts.closed (by decide) (by decide)
    exact ⟨_, by rw [hts, hahead, ← List.append_assoc], .closed,
      .access (path :: paths) (List.cons_ne_nil _ _) hspells haccessed,
      (halts_primary_closed _).post hdot⟩

theorem takes_intersectionType :
    Takes fuel (Parse.intersectionType fuel type) (Spelled d .inter) := by
  intro c e c' hn h
  obtain ⟨ts, hts, ⟨⟨b, hspells, hhalts⟩, hstops⟩ | ⟨l, init, last, hinit, hrow, rfl, rfl⟩⟩ :=
    takes_chain (takes_postfixed htype) hn h
  · refine ⟨ts, hts, b, .operand hspells, ?_⟩
    exact hhalts.inter hstops
  · obtain ⟨b, hlast, hhalts⟩ := hrow.last
    have hclosed : ∀ p ∈ init, Spells d .post .closed p.1 p.2 := by
      intro p hp
      obtain ⟨more, b', hspells, hhalts'⟩ := hrow.init p hp
      obtain rfl := hhalts'.closed (by decide) (by decide)
      exact hspells
    exact ⟨_, hts, b, .intersection l init hinit hclosed hlast, hhalts.inter hrow.stops⟩

theorem takes_unionType : Takes fuel (Parse.unionType fuel type) (Spelled (d + 1) .type) := by
  intro c e c' hn h
  obtain ⟨ts, hts, ⟨⟨b, hspells, hhalts⟩, hstops⟩ | ⟨l, init, last, hinit, hrow, rfl, rfl⟩⟩ :=
    takes_chain (takes_intersectionType htype) hn h
  · exact ⟨ts, hts, .closed, .single hspells, hhalts.type hstops⟩
  · obtain ⟨b, hlast, hhalts⟩ := hrow.last
    have hclosed : ∀ p ∈ init, Spells d .inter .closed p.1 p.2 := by
      intro p hp
      obtain ⟨more, b', hspells, hhalts'⟩ := hrow.init p hp
      obtain rfl := hhalts'.closed (by decide) (by decide)
      exact hspells
    exact ⟨_, hts, .closed, .union l init hinit hclosed hlast, hhalts.type hrow.stops⟩

end Rules

theorem takes_typeWithin (fuel depth : Nat) :
    Takes fuel (Parse.typeWithin fuel depth) (Spelled depth .type) := by
  induction depth with
  | zero =>
    intro c e c' _ h
    exact absurd h (run_failWith_ne _)
  | succ depth ih => exact takes_unionType ih

theorem spells_of_ofTokens {file : Option String} {size : Nat} {tokens : List PlacedToken}
    (h : ofTokens file size tokens = .ok e) :
    Spells nestingLimit .type .closed (tokens.map (·.token)) e := by
  rw [ofTokens, StateT.run'_eq] at h
  cases hrun : (Parse.whole tokens.length).run ⟨file, size, tokens, 0⟩ with
  | error fault =>
    rw [hrun] at h
    cases h
  | ok result =>
    obtain ⟨m, c'⟩ := result
    rw [hrun] at h
    cases h
    obtain ⟨e, c₁, htype, hwhole⟩ := ok_of_bind hrun
    have hlength : (Cursor.ahead ⟨file, size, tokens, 0⟩).length ≤ tokens.length :=
      Nat.le_of_eq (List.length_map ..)
    obtain ⟨ts, hts, hspelled⟩ := takes_typeWithin _ _ hlength htype
    rw [run_peek_bind] at hwhole
    split at hwhole
    next => exact absurd hwhole run_fail_ne
    next hnone =>
      obtain ⟨rfl, rfl⟩ := ok_of_pure hwhole
      have hnil : c'.ahead = [] := by simpa using hnone
      rw [hnil, List.append_nil] at hts
      have hall : tokens.map (·.token) = ts := hts
      rw [hall]
      exact hspelled.type.1

end TemplateCheck.TypeExpr
