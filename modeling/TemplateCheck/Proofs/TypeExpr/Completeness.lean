import TemplateCheck.Proofs.TypeExpr.Parts
import TemplateCheck.Proofs.TypeExpr.Reading

/-! The parser reads what the grammar spells: tokens that spell an expression, in front of a token
that does not continue it, are read as an expression that is the same up to places. -/

namespace TemplateCheck.TypeExpr
variable {d fuel : Nat} {level : Level} {b : Ending} {t : Token} {ts us rest : List Token}
  {e m : TypeExpr}

def Level.read (fuel depth : Nat) : Level → Parse TypeExpr
  | .type => Parse.typeWithin fuel depth
  | .inter => Parse.intersectionType fuel (Parse.typeWithin fuel depth)
  | .post => Parse.postfixed fuel (Parse.typeWithin fuel depth)
  | .primary => Parse.primary fuel (Parse.typeWithin fuel depth)

def continuations : Level → Ending → List Token
  | .primary, .closed => [.less, .openParen]
  | .post, .closed => [.less, .openParen, .dot]
  | .inter, .closed => [.less, .openParen, .dot, .ampersand]
  | .type, _ => [.less, .openParen, .dot, .ampersand, .bar]
  | _, .result => [.less, .openParen, .dot, .ampersand, .bar]

def Stops (level : Level) (ending : Ending) (rest : List Token) : Prop :=
  ∀ t ∈ continuations level ending, rest.head? ≠ some t

theorem Stops.mono {level' : Level} {b' : Ending} (h : Stops level b rest)
    (hsub : continuations level' b' ⊆ continuations level b) : Stops level' b' rest :=
  fun t ht => h t (hsub ht)

theorem stops_cons (h : t ∉ continuations level b) : Stops level b (t :: rest) := by
  intro u hu heq
  rw [List.head?_cons, Option.some.injEq] at heq
  exact h (heq ▸ hu)

theorem Stops.inter (h : Stops .type .closed rest) : Stops .inter b rest :=
  h.mono (by cases b <;> simp [continuations])

theorem Stops.post (h : Stops .inter b rest) : Stops .post b rest :=
  h.mono (by cases b <;> simp [continuations])

theorem Stops.primary (h : Stops .post b rest) : Stops .primary b rest :=
  h.mono (by cases b <;> simp [continuations])

def OpensType : List Token → Prop
  | [] => False
  | t :: ts => t ∉ [.greater, .closeParen, .ellipsis] ∧
      ∀ name, t = .name name → ts.head? ≠ some .colon

theorem OpensType.append (h : OpensType ts) (hus : us.head? ≠ some .colon) :
    OpensType (ts ++ us) := by
  match ts, h with
  | [t], ⟨ht, _⟩ => exact ⟨ht, fun _ _ => by simpa using hus⟩
  | t :: u :: ts, ⟨ht, hname⟩ => exact ⟨ht, fun name h => by simpa using hname name h⟩

theorem OpensType.head_ne (h : OpensType ts) (ht : t ∈ [Token.greater, .closeParen, .ellipsis]) :
    (ts ++ rest).head? ≠ some t := by
  match ts, h with
  | u :: ts, ⟨hu, _⟩ =>
    rintro heq
    rw [List.cons_append, List.head?_cons, Option.some.injEq] at heq
    exact hu (heq ▸ ht)

theorem OpensType.separate {sep : Token} (hsep : sep ≠ .colon) (h : OpensType ts)
    (items : List (List Token)) : OpensType (separate sep (ts :: items)) := by
  cases items with
  | nil => exact h
  | cons us items => exact h.append (by simpa using hsep)

theorem Spells.opensType (h : Spells d level b ts e) : OpensType ts := by
  induction h with
  | single _ ih => exact ih
  | operand _ ih => exact ih
  | plain _ ih => exact ih
  | union l init nonempty _ _ ihinit _ =>
    obtain ⟨p, init, rfl⟩ := List.exists_cons_of_ne_nil nonempty
    exact (ihinit p (List.mem_cons_self ..)).separate (by decide) _
  | intersection l init nonempty _ _ ihinit _ =>
    obtain ⟨p, init, rfl⟩ := List.exists_cons_of_ne_nil nonempty
    exact (ihinit p (List.mem_cons_self ..)).separate (by decide) _
  | access paths nonempty _ _ ih =>
    obtain ⟨p, paths, rfl⟩ := List.exists_cons_of_ne_nil nonempty
    exact ih.append (by simp)
  | _ => simp [OpensType]

abbrev ReadsAs (p : Parse TypeExpr) (ts rest : List Token) (e : TypeExpr) : Prop :=
  Reads p ts rest (same · e)

section Length

variable {sep : Token} {items : List (List Token)}

theorem length_le_separate (sep : Token) (items : List (List Token)) :
    items.length ≤ (separate sep items).length + 1 := by
  induction items with
  | nil => simp
  | cons ts items ih =>
    cases items with
    | nil => simp
    | cons us items => simp only [separate, List.length_append, List.length_cons] at ih ⊢; omega

theorem length_mem_separate (sep : Token) (h : ts ∈ items) :
    ts.length ≤ (separate sep items).length := by
  induction items with
  | nil => cases h
  | cons us items ih =>
    by_cases hitems : items = []
    · subst hitems
      obtain rfl := List.mem_singleton.1 h
      exact Nat.le_refl _
    · rw [Reads.separate_cons _ _ hitems, List.length_append, List.length_cons]
      rcases List.mem_cons.1 h with rfl | h
      · exact Nat.le_add_right ..
      · have := ih h
        omega

theorem lengths_of_entryTokens {γ : Type} (head : γ → List Token)
    (parts : List (List Token × γ)) (trailing : Bool) {n : Nat}
    (h : (entryTokens (parts.map fun p => head p.2 ++ p.1) trailing).length < n) :
    parts.length ≤ n ∧ ∀ p ∈ parts, p.1.length ≤ n := by
  rw [entryTokens, List.length_append] at h
  have hcount := length_le_separate .comma (parts.map fun p => head p.2 ++ p.1)
  rw [List.length_map] at hcount
  refine ⟨by omega, fun p hp => ?_⟩
  have hitem := length_mem_separate .comma (List.mem_map_of_mem (f := fun p => head p.2 ++ p.1) hp)
  rw [List.length_append] at hitem
  omega

end Length

section Chain

variable {sep : Token} {make : Location → List TypeExpr → TypeExpr} {operand : Parse TypeExpr}

theorem chain_one (h : ReadsAs operand ts rest e) (hrest : rest.head? ≠ some sep) :
    ReadsAs (Parse.chain fuel sep make operand) ts rest e :=
  h.last fun a ha => (Reads.separated_none hrest fuel).last fun others hothers => by
    subst hothers
    exact .ret ha

theorem chain_many {init : List (List Token × TypeExpr)} (nonempty : init ≠ [])
    (hfuel : (separate sep (init.map (·.1) ++ [ts])).length ≤ fuel)
    (hinit : ∀ p ∈ init, p.1.length ≤ fuel → ∀ more, ReadsAs operand p.1 (sep :: more) p.2)
    (hlast : ts.length ≤ fuel → ReadsAs operand ts rest e) (hrest : rest.head? ≠ some sep) :
    Reads (Parse.chain fuel sep make operand) (separate sep (init.map (·.1) ++ [ts])) rest
      (fun m => ∃ l ms, m = make l ms ∧
        List.Forall₂ (fun e m => same m e) (init.map (·.2) ++ [e]) ms) := by
  have hitem {us : List Token} (h : us ∈ init.map (·.1) ++ [ts]) : us.length ≤ fuel :=
    Nat.le_trans (length_mem_separate sep h) hfuel
  have hcount := length_le_separate sep (init.map (·.1) ++ [ts])
  rw [List.length_append, List.length_map, List.length_singleton] at hcount
  replace hinit (p) (hp : p ∈ init) := hinit p hp (hitem (by simp [List.mem_map_of_mem hp]))
  obtain ⟨p, init, rfl⟩ := List.exists_cons_of_ne_nil nonempty
  rw [List.map_cons, List.cons_append, Reads.separate_cons _ _ (by simp)]
  refine (hinit p (List.mem_cons_self ..) _).bind fun a ha => ?_
  have hothers := Reads.separated (R := fun e m => same m e) (ts, e) (hlast (hitem (by simp)))
    hrest init (fun q hq => hinit q (List.mem_cons_of_mem _ hq))
    (Nat.lt_of_lt_of_le (Nat.lt_of_succ_le (Nat.le_of_succ_le_succ hcount)) hfuel)
  refine hothers.last fun others hothers => ?_
  have hne : others.isEmpty = false := by
    cases hothers' : others with
    | nil => simpa [hothers'] using hothers.length_eq
    | cons => rfl
  rw [hne]
  refine Reads.getState.last fun c _ => Reads.locate.last fun l _ => ?_
  exact .ret ⟨l, _, rfl, .cons ha hothers⟩

end Chain

section Access

variable {a : TypeExpr} {ps qs : List String}

theorem Accessed.split (h : Accessed e (ps ++ qs) m) :
    ∃ k, Accessed e ps k ∧ Accessed k qs m := by
  induction ps generalizing e with
  | nil => exact ⟨e, .done e, h⟩
  | cons p ps ih =>
    cases h with
    | step l h =>
      obtain ⟨k, hps, hqs⟩ := ih h
      exact ⟨k, hps.step l, hqs⟩

theorem Accessed.same_foldl (h : Accessed e ps m) (ha : same a e) (l : Location) :
    same (ps.foldl (fun base p => .indexed l base p) a) m := by
  induction h generalizing a with
  | done e => exact ha
  | step l' _ ih => exact ih (by simpa [same] using ha)

theorem properties_none (ha : same a e) (hrest : rest.head? ≠ some .dot) :
    ReadsAs (Parse.properties fuel a) [] rest e := by
  cases fuel with
  | zero => exact .ret ha
  | succ fuel =>
    refine (Reads.eat_other hrest).look fun _ hate => ?_
    subst hate
    exact .ret ha

theorem reads_properties {paths : List String} (hm : Accessed e (paths.flatMap Text.segments) m)
    (ha : same a e) (hrest : rest.head? ≠ some .dot) (hfuel : paths.length ≤ fuel) :
    ReadsAs (Parse.properties fuel a) (paths.flatMap fun p => [.dot, .name p]) rest m := by
  induction paths generalizing a e fuel with
  | nil =>
    obtain ⟨⟩ := hm
    exact properties_none ha hrest
  | cons p paths ih =>
    obtain ⟨fuel, rfl⟩ := Nat.exists_eq_add_of_le' (show 1 ≤ fuel by simp at hfuel; omega)
    obtain ⟨k, hp, hk⟩ := Accessed.split hm
    rw [List.flatMap_cons]
    refine Reads.eat.pass fun _ hate => ?_
    subst hate
    refine Reads.peek.look fun found hfound => ?_
    subst hfound
    refine Reads.advance.pass fun place _ => Reads.locate.look fun l _ => ?_
    exact ih hk (hp.same_foldl ha l) (by simp at hfuel; omega)

end Access

section Rules

variable {type : Parse TypeExpr} {l : Location} {name : String}

def ReadsParts {γ : Type} (type : Parse TypeExpr) (typeOf : γ → TypeExpr)
    (parts : List (List Token × γ)) : Prop :=
  ∀ p ∈ parts, ∀ more, Stops .type .closed more → ReadsAs type p.1 more (typeOf p.2)

theorem reads_named (h : name ∉ keywords.map (·.1)) (hrest : rest.head? ≠ some .less) :
    ReadsAs (Parse.namedType fuel type name) [.name name] rest (.named l name) := by
  refine Reads.advance.last fun place _ => ?_
  rw [keywordLiteral_eq_none_iff.2 h]
  refine (Reads.eat_other hrest).look fun _ hate => ?_
  subst hate
  exact .ret (by simp [same])

theorem reads_keyword {value : Literal} (h : (name, value) ∈ keywords) :
    ReadsAs (Parse.namedType fuel type name) [.name name] rest (.literal l value) := by
  refine Reads.advance.last fun place _ => ?_
  rw [keywordLiteral_eq_some_iff.2 h]
  exact .ret (by simp [same])

theorem reads_arguments {arguments : List (List Token × TypeExpr)}
    (hopens : ∀ p ∈ arguments, OpensType p.1) (h : ReadsParts type id arguments)
    (hfuel : arguments.length ≤ fuel) :
    Reads (Parse.genericArguments fuel type) (separate .comma (arguments.map (·.1)))
      (.greater :: rest) (List.Forall₂ (fun e m => same m e) (arguments.map (·.2))) := by
  refine Reads.peek.look fun found hfound => ?_
  cases arguments with
  | nil =>
    subst hfound
    exact .ret .nil
  | cons p arguments =>
    have hp := hopens p (List.mem_cons_self ..)
    rw [if_neg (by rw [hfound]; exact (hp.separate (by decide) _).head_ne (by simp))]
    rcases List.eq_nil_or_concat arguments with rfl | ⟨init, last, rfl⟩
    · refine (h p (by simp) _ (stops_cons (by decide))).last fun a ha => ?_
      refine (Reads.separated_none (by simp) fuel).last fun others hothers => ?_
      subst hothers
      exact .ret (.cons ha .nil)
    · rw [List.map_cons, List.concat_eq_append, List.map_append, List.map_singleton,
        Reads.separate_cons _ _ (by simp)]
      refine (h p (by simp) _ (stops_cons (by decide))).bind fun a ha => ?_
      have hlast := h last (by simp) (.greater :: rest) (stops_cons (by decide))
      have hinit : ∀ q ∈ init, ∀ more, ReadsAs type q.1 (.comma :: more) q.2 :=
        fun q hq more => h q (by simp [hq]) _ (stops_cons (by decide))
      have hlength : init.length < fuel := by simp at hfuel; omega
      refine (Reads.separated (R := fun e m => same m e) last hlast (by simp) init hinit
        hlength).last fun others hothers => .ret ?_
      rw [List.map_cons, List.map_append]
      exact .cons ha hothers

theorem reads_generic {arguments : List (List Token × TypeExpr)}
    (hname : name ∉ keywords.map (·.1)) (hopens : ∀ p ∈ arguments, OpensType p.1)
    (h : ReadsParts type id arguments) (hfuel : arguments.length ≤ fuel) :
    ReadsAs (Parse.namedType fuel type name)
      (.name name :: .less :: (separate .comma (arguments.map (·.1)) ++ [.greater])) rest
      (.generic l name (arguments.map (·.2))) := by
  refine Reads.advance.pass fun place _ => ?_
  rw [keywordLiteral_eq_none_iff.2 hname]
  refine Reads.eat.pass fun _ hate => ?_
  subst hate
  refine (reads_arguments hopens h hfuel).bind fun as has => ?_
  refine Reads.expect.last fun closing _ => Reads.locate.last fun l' _ => .ret ?_
  simpa [same] using has.flip

theorem reads_optional {optional : Bool} :
    Reads (Parse.eat .question) (optionalMark optional) (.colon :: rest) (· = optional) := by
  cases optional with
  | true => exact Reads.eat
  | false => exact Reads.eat_other (by simp)

theorem reads_field {f : Field TypeExpr} (hname : Text.isDotted f.name = false)
    (h : ReadsAs type ts rest f.type) :
    Reads (Parse.field type) (fieldHead f ++ ts) rest (SameField · f) := by
  rw [fieldHead, List.cons_append, List.append_assoc]
  refine (Reads.simpleName hname).pass fun ⟨n, l⟩ hn => ?_
  subst hn
  refine reads_optional.bind fun o ho => Reads.expect.pass fun _ _ => ?_
  exact h.last fun a ha => .ret ⟨rfl, ho, ha⟩

theorem reads_functionParam {p : FunctionParam TypeExpr} (hname : p.Named)
    (h : ReadsAs type ts rest p.type) :
    Reads (Parse.functionParam type) (functionParamHead p ++ ts) rest (SameFunctionParam · p) := by
  have hvariadic (more : List Token) :
      Reads (Parse.eat .ellipsis) (if p.variadic then [.ellipsis] else [])
        (.name p.spelling :: more)
        (· = p.variadic) := by
    cases p.variadic with
    | true => exact Reads.eat
    | false => exact Reads.eat_other (by simp)
  rw [functionParamHead, List.append_assoc]
  refine (hvariadic _).bind fun v hv => (Reads.simpleName hname.2).pass fun ⟨n, l⟩ hn => ?_
  subst hn
  refine Reads.expect.pass fun _ _ => h.last fun a ha => .ret ⟨hname.1.symm, rfl, hv, ha⟩

theorem reads_templateParam {p : TemplateParam TypeExpr} (hname : p.Named)
    (h : ReadsAs type ts rest p.type) :
    Reads (Parse.templateParam type) (templateParamHead p ++ ts) rest (SameTemplateParam · p) := by
  have hname (more : List Token) : Reads Parse.templateParamName [] (paramToken p :: more)
      (· = (p.name, p.spelling, p.kind)) := by
    refine Reads.peek.last fun found hfound => ?_
    subst hfound
    unfold TemplateParam.Named at hname
    unfold paramToken
    cases hkind : p.kind with
    | regular =>
      rw [hkind] at hname
      simp only [List.head?_cons]
      rw [if_neg (by simp [hname.2]), hname.1]
      exact .ret rfl
    | htmlAttribute =>
      rw [hkind] at hname
      obtain ⟨text, hspelling, hname⟩ := hname
      exact .ret (by simp [hspelling, hname])
  rw [templateParamHead, List.cons_append, List.append_assoc]
  refine (hname _).look fun n hn => Reads.advance.pass fun _ _ => ?_
  subst hn
  refine reads_optional.bind fun o ho => Reads.expect.pass fun _ _ => h.last fun a ha => ?_
  subst ho
  exact .ret ⟨rfl, rfl, rfl, Bool.not_not _, ha⟩

theorem reads_entries {γ δ : Type} {item : Parse δ} {R : γ → δ → Prop} {typeOf : γ → TypeExpr}
    {close : Token} {parts : List (List Token × γ)} (head : γ → List Token) (trailing : Bool)
    (hclose : close = .closeParen ∨ close = .closeBracket)
    (hhead : ∀ p ∈ parts, ∃ t ts, head p.2 = t :: ts ∧ t ≠ close)
    (hitem : ∀ p ∈ parts, ∀ more, ReadsAs type p.1 more (typeOf p.2) →
      Reads item (head p.2 ++ p.1) more (R p.2))
    (h : ReadsParts type typeOf parts) (hfuel : parts.length ≤ fuel) :
    Reads (Parse.entries close item fuel)
      (entryTokens (parts.map fun p => head p.2 ++ p.1) trailing) (close :: rest)
      (List.Forall₂ R (parts.map (·.2))) := by
  have hentries := @Reads.entries δ rest γ close item R
    (parts.map fun p => (head p.2 ++ p.1, p.2)) trailing
  simp only [List.map_map, Function.comp_def, List.length_map, List.forall_mem_map] at hentries
  refine hentries ?_ ?_ ?_ hfuel
  · rintro p hp next more (rfl | rfl)
    · exact hitem p hp _ (h p hp _ (stops_cons (by decide)))
    · refine hitem p hp _ (h p hp _ (stops_cons ?_))
      rcases hclose with rfl | rfl <;> decide
  · intro p hp
    obtain ⟨t, ts, hts, ht⟩ := hhead p hp
    exact ⟨t, ts ++ p.1, by rw [hts, List.cons_append], ht⟩
  · rcases hclose with rfl | rfl <;> decide

theorem reads_record {fields : List (List Token × Field TypeExpr)} {trailing : Bool}
    (names : ∀ p ∈ fields, Text.isDotted p.2.name = false)
    (h : ReadsParts type Field.type fields) (hfuel : fields.length ≤ fuel) :
    ReadsAs (Parse.recordType fuel type)
      (.openBracket :: (entryTokens (fields.map fun p => fieldHead p.2 ++ p.1) trailing ++
        [.closeBracket])) rest (.record l (fields.map (·.2))) := by
  refine Reads.advance.pass fun opening _ => ?_
  refine (reads_entries (R := fun f g => SameField g f) fieldHead trailing (.inr rfl)
    (fun p _ => ⟨_, _, rfl, by simp⟩) (fun p hp more => reads_field (names p hp)) h
    hfuel).bind fun fs hfs => ?_
  refine Reads.expect.last fun closing _ => Reads.locate.last fun l' _ => .ret ?_
  rw [same]
  exact sameFields_iff.2 hfs.flip

theorem reads_result (h : ReadsAs type ts rest e) :
    ReadsAs (Parse.resultType type) (.closeParen :: .arrow :: ts) rest e :=
  Reads.expect.pass fun _ _ => Reads.expect.pass fun _ _ => h

theorem reads_function {params : List (List Token × FunctionParam TypeExpr)} {trailing : Bool}
    (names : ∀ p ∈ params, p.2.Named) (h : ReadsParts type FunctionParam.type params)
    (hresult : ReadsAs type ts rest e) (hfuel : params.length ≤ fuel) :
    ReadsAs (Parse.functionType fuel type)
      (.openParen :: (entryTokens (params.map fun p => functionParamHead p.2 ++ p.1) trailing ++
        .closeParen :: .arrow :: ts)) rest (.function l (params.map (·.2)) e) := by
  have hhead : ∀ p ∈ params, ∃ t ts, functionParamHead p.2 = t :: ts ∧ t ≠ .closeParen := by
    intro p _
    unfold functionParamHead
    cases p.2.variadic with
    | true => exact ⟨_, _, rfl, by simp⟩
    | false => exact ⟨_, _, rfl, by simp⟩
  refine Reads.advance.pass fun opening _ => ?_
  refine (reads_entries (R := fun p q => SameFunctionParam q p) functionParamHead trailing
    (.inl rfl) hhead (fun p hp more => reads_functionParam (names p hp)) h
    hfuel).bind fun ps hps => ?_
  refine (reads_result hresult).last fun a ha => Reads.locate.last fun l' _ => .ret ?_
  rw [same, ha, Bool.and_true]
  exact sameFunctionParams_iff.2 hps.flip

theorem reads_template {params : List (List Token × TemplateParam TypeExpr)} {trailing : Bool}
    (names : ∀ p ∈ params, p.2.Named) (h : ReadsParts type TemplateParam.type params)
    (hresult : ReadsAs type ts rest e) (hfuel : params.length ≤ fuel) :
    ReadsAs (Parse.templateType fuel type)
      (.name "template" :: .openParen ::
        (entryTokens (params.map fun p => templateParamHead p.2 ++ p.1) trailing ++
          .closeParen :: .arrow :: ts)) rest (.template l (params.map (·.2)) e) := by
  have hhead : ∀ p ∈ params, ∃ t ts, templateParamHead p.2 = t :: ts ∧ t ≠ .closeParen := by
    intro p _
    refine ⟨_, _, rfl, ?_⟩
    unfold paramToken
    cases p.2.kind <;> simp
  refine Reads.advance.pass fun keyword _ => Reads.advance.pass fun opening _ => ?_
  refine (reads_entries (R := fun p q => SameTemplateParam q p) templateParamHead trailing
    (.inl rfl) hhead (fun p hp more => reads_templateParam (names p hp)) h
    hfuel).bind fun ps hps => ?_
  refine (reads_result hresult).last fun a ha => Reads.locate.last fun l' _ => .ret ?_
  rw [same, ha, Bool.and_true]
  exact sameTemplateParams_iff.2 hps.flip

theorem opensFunction_params {params : List (List Token × FunctionParam TypeExpr)}
    (names : ∀ p ∈ params, p.2.Named) (trailing : Bool) (rest : List Token) :
    Reads Parse.opensFunction [] (.openParen ::
      (entryTokens (params.map fun p => functionParamHead p.2 ++ p.1) trailing ++
        .closeParen :: rest)) (· = true) := by
  refine (Reads.lookahead 1).last fun found hfound => ?_
  cases params with
  | nil =>
    rw [List.map_nil, Reads.entryTokens_nil] at hfound
    subst hfound
    exact .ret rfl
  | cons p params =>
    have hp := names p (List.mem_cons_self ..)
    obtain ⟨more, hmore⟩ := Reads.entryTokens_front (functionParamHead p.2 ++ p.1)
      (params.map fun p => functionParamHead p.2 ++ p.1) trailing
    rw [List.map_cons, hmore] at hfound ⊢
    unfold functionParamHead at hfound ⊢
    generalize p.2.variadic = variadic at hfound ⊢
    cases variadic with
    | true =>
      subst hfound
      exact .ret rfl
    | false =>
      subst hfound
      refine (Reads.lookahead 2).last fun next hnext => .ret ?_
      simp [hnext, hp.2]

theorem opensFunction_type (h : OpensType ts) (rest : List Token) :
    Reads Parse.opensFunction [] (.openParen :: (ts ++ .closeParen :: rest)) (· = false) := by
  refine (Reads.lookahead 1).last fun found hfound => ?_
  have hopens : OpensType (ts ++ .closeParen :: rest) := h.append (by simp)
  match hts : ts ++ .closeParen :: rest, hopens with
  | t :: more, ⟨ht, hname⟩ =>
    rw [hts] at hfound
    subst hfound
    cases t
    -- Only a name needs the second token: a parameter's name has a colon behind it.
    case name text =>
      refine (Reads.lookahead 2).last fun next hnext => .ret ?_
      have hcolon : next ≠ some .colon := by
        rw [hnext]
        simpa [List.head?_eq_getElem?] using hname text rfl
      simp [hcolon]
    all_goals first | exact .ret rfl | simp at ht

end Rules

section Primary

variable {type : Parse TypeExpr} {l : Location} {name : String}

theorem primary_name {p : TypeExpr}
    (htemplate : name = "template" → (ts ++ rest).head? ≠ some .openParen)
    (h : ReadsAs (Parse.namedType fuel type name) (.name name :: ts) rest p) :
    ReadsAs (Parse.primary fuel type) (.name name :: ts) rest p := by
  refine Reads.peek.look fun found hfound => ?_
  subst hfound
  refine (Reads.lookahead 1).look fun next hnext => ?_
  have hother : ¬(name = "template" ∧ next = some .openParen) := by
    rintro ⟨hname, rfl⟩
    exact htemplate hname (by simpa [List.head?_eq_getElem?] using hnext.symm)
  rw [if_neg hother]
  exact h

theorem primary_template {p : TypeExpr}
    (h : ReadsAs (Parse.templateType fuel type) (.name "template" :: .openParen :: ts) rest p) :
    ReadsAs (Parse.primary fuel type) (.name "template" :: .openParen :: ts) rest p := by
  refine Reads.peek.look fun found hfound => ?_
  subst hfound
  refine (Reads.lookahead 1).look fun next hnext => ?_
  subst hnext
  exact h

theorem primary_parens (hopens : OpensType ts)
    (h : ∀ more, Stops .type .closed more → ReadsAs type ts more e) :
    ReadsAs (Parse.primary fuel type) (.openParen :: (ts ++ [.closeParen])) rest e := by
  refine Reads.peek.look fun found hfound => ?_
  subst hfound
  have hopening : Reads Parse.opensFunction [] ((.openParen :: (ts ++ [.closeParen])) ++ rest)
      (· = false) := by
    simpa using opensFunction_type hopens rest
  refine hopening.look fun function hfunction => ?_
  subst hfunction
  refine Reads.advance.pass fun _ _ => (h _ (stops_cons (by decide))).bind fun a ha => ?_
  exact Reads.expect.last fun _ _ => .ret ha

theorem primary_function {params : List (List Token × FunctionParam TypeExpr)} {trailing : Bool}
    (names : ∀ p ∈ params, p.2.Named) (h : ReadsParts type FunctionParam.type params)
    (hresult : ReadsAs type ts rest e) (hfuel : params.length ≤ fuel) :
    ReadsAs (Parse.primary fuel type)
      (.openParen :: (entryTokens (params.map fun p => functionParamHead p.2 ++ p.1) trailing ++
        .closeParen :: .arrow :: ts)) rest (.function l (params.map (·.2)) e) := by
  refine Reads.peek.look fun found hfound => ?_
  subst hfound
  have hopening := opensFunction_params names trailing (.arrow :: (ts ++ rest))
  refine Reads.look (P := (· = true)) (by simpa using hopening) fun function hfunction => ?_
  subst hfunction
  exact reads_function names h hresult hfuel

end Primary

/-- The rule for the level reads the tokens as `e`, if nothing behind them continues it. -/
def ReadsAt (fuel d : Nat) (level : Level) (b : Ending) (ts : List Token) (e : TypeExpr) : Prop :=
  ts.length ≤ fuel → ∀ rest, Stops level b rest → ReadsAs (level.read fuel d) ts rest e

section Levels

theorem readsAt_single (h : ReadsAt fuel d .inter b ts e) :
    ReadsAt fuel (d + 1) .type .closed ts e := fun hfuel rest hrest =>
  chain_one (h hfuel rest hrest.inter) (hrest .bar (by simp [continuations]))

theorem readsAt_union (l : Location) {init : List (List Token × TypeExpr)} (nonempty : init ≠ [])
    (hinit : ∀ p ∈ init, ReadsAt fuel d .inter .closed p.1 p.2)
    (hlast : ReadsAt fuel d .inter b ts e) :
    ReadsAt fuel (d + 1) .type .closed (separate .bar (init.map (·.1) ++ [ts]))
      (.union l (init.map (·.2) ++ [e])) := by
  intro hfuel rest hrest
  have hinit (p) (hp : p ∈ init) (hlength : p.1.length ≤ fuel) (more : List Token) :=
    hinit p hp hlength (.bar :: more) (stops_cons (by decide))
  refine (chain_many nonempty hfuel hinit (fun hlength => hlast hlength rest hrest.inter)
    (hrest .bar (by simp [continuations]))).mono ?_
  rintro m ⟨l', ms, rfl, hms⟩
  rw [same]
  exact sameAll_iff.2 hms.flip

theorem readsAt_operand (h : ReadsAt fuel d .post b ts e) : ReadsAt fuel d .inter b ts e :=
  fun hfuel rest hrest =>
    chain_one (h hfuel rest hrest.post) (hrest .ampersand (by cases b <;> simp [continuations]))

theorem readsAt_intersection (l : Location) {init : List (List Token × TypeExpr)}
    (nonempty : init ≠ []) (hinit : ∀ p ∈ init, ReadsAt fuel d .post .closed p.1 p.2)
    (hlast : ReadsAt fuel d .post b ts e) :
    ReadsAt fuel d .inter b (separate .ampersand (init.map (·.1) ++ [ts]))
      (.intersection l (init.map (·.2) ++ [e])) := by
  intro hfuel rest hrest
  have hinit (p) (hp : p ∈ init) (hlength : p.1.length ≤ fuel) (more : List Token) :=
    hinit p hp hlength (.ampersand :: more) (stops_cons (by decide))
  refine (chain_many nonempty hfuel hinit (fun hlength => hlast hlength rest hrest.post)
    (hrest .ampersand (by cases b <;> simp [continuations]))).mono ?_
  rintro m ⟨l', ms, rfl, hms⟩
  rw [same]
  exact sameAll_iff.2 hms.flip

theorem readsAt_plain (h : ReadsAt fuel d .primary b ts e) : ReadsAt fuel d .post b ts e := by
  intro hfuel rest hrest
  have hdot : rest.head? ≠ some .dot := hrest .dot (by cases b <;> simp [continuations])
  exact (h hfuel rest hrest.primary).last fun a ha => properties_none ha hdot

theorem readsAt_access {paths : List String} (nonempty : paths ≠ [])
    (h : ReadsAt fuel d .primary .closed ts e) (hm : Accessed e (paths.flatMap Text.segments) m) :
    ReadsAt fuel d .post .closed (ts ++ paths.flatMap fun p => [.dot, .name p]) m := by
  intro hfuel rest hrest
  rw [List.length_append] at hfuel
  have hcount : paths.length ≤ (paths.flatMap fun p => [Token.dot, .name p]).length := by
    simp only [List.length_flatMap, List.length_cons, List.length_nil, List.map_const',
      List.sum_replicate_nat]
    omega
  have hprimary (more : List Token) (hdot : more.head? = some .dot) :
      Stops .primary .closed more := by
    intro t ht
    rw [hdot]
    rintro ⟨⟩
    simp [continuations] at ht
  obtain ⟨p, paths, rfl⟩ := List.exists_cons_of_ne_nil nonempty
  refine (h (by omega) _ (hprimary _ (by simp))).bind fun a ha => ?_
  exact reads_properties hm ha (hrest .dot (by simp [continuations])) (by omega)

end Levels

section Compound
variable {γ : Type} {name : String} {l : Location} {trailing : Bool}

theorem readsParts_of_readsAt (head : γ → List Token) (typeOf : γ → TypeExpr)
    {parts : List (List Token × γ)} (trailing : Bool)
    (h : ∀ p ∈ parts, ReadsAt fuel d .type .closed p.1 (typeOf p.2))
    (hfuel : (entryTokens (parts.map fun p => head p.2 ++ p.1) trailing).length < fuel) :
    ReadsParts (Parse.typeWithin fuel d) typeOf parts ∧ parts.length ≤ fuel := by
  obtain ⟨hcount, hlength⟩ := lengths_of_entryTokens head parts trailing hfuel
  exact ⟨fun p hp more hmore => h p hp (hlength p hp) more hmore, hcount⟩

theorem readsAt_generic (hname : name ∉ keywords.map (·.1))
    {arguments : List (List Token × TypeExpr)} (hopens : ∀ p ∈ arguments, OpensType p.1)
    (h : ∀ p ∈ arguments, ReadsAt fuel d .type .closed p.1 p.2) :
    ReadsAt fuel d .primary .closed
      (.name name :: .less :: (separate .comma (arguments.map (·.1)) ++ [.greater]))
      (.generic l name (arguments.map (·.2))) := by
  intro hfuel rest hrest
  simp only [List.length_cons, List.length_append, List.length_nil] at hfuel
  have hcount := length_le_separate .comma (arguments.map (·.1))
  rw [List.length_map] at hcount
  refine primary_name (by simp) (reads_generic hname hopens (fun p hp more hmore => ?_) (by omega))
  have hlength := length_mem_separate .comma (List.mem_map_of_mem (f := (·.1)) hp)
  exact h p hp (by omega) more hmore

theorem readsAt_parens (hopens : OpensType ts) (h : ReadsAt fuel d .type .closed ts e) :
    ReadsAt fuel d .primary .closed (.openParen :: (ts ++ [.closeParen])) e := by
  intro hfuel rest hrest
  simp only [List.length_cons, List.length_append] at hfuel
  exact primary_parens hopens fun more hmore => h (by omega) more hmore

theorem readsAt_record {fields : List (List Token × Field TypeExpr)}
    (names : ∀ p ∈ fields, Text.isDotted p.2.name = false)
    (h : ∀ p ∈ fields, ReadsAt fuel d .type .closed p.1 p.2.type) :
    ReadsAt fuel d .primary .closed
      (.openBracket :: (entryTokens (fields.map fun p => fieldHead p.2 ++ p.1) trailing ++
        [.closeBracket])) (.record l (fields.map (·.2))) := by
  intro hfuel rest hrest
  simp only [List.length_cons, List.length_append, List.length_nil] at hfuel
  obtain ⟨hparts, hcount⟩ := readsParts_of_readsAt fieldHead (·.type) trailing h (by omega)
  refine Reads.peek.look fun found hfound => ?_
  subst hfound
  exact reads_record names hparts hcount

theorem readsAt_function {params : List (List Token × FunctionParam TypeExpr)}
    (names : ∀ p ∈ params, p.2.Named)
    (h : ∀ p ∈ params, ReadsAt fuel d .type .closed p.1 p.2.type)
    (hresult : ReadsAt fuel d .type .closed ts e) :
    ReadsAt fuel d .primary .result
      (.openParen :: (entryTokens (params.map fun p => functionParamHead p.2 ++ p.1) trailing ++
        .closeParen :: .arrow :: ts)) (.function l (params.map (·.2)) e) := by
  intro hfuel rest hrest
  simp only [List.length_cons, List.length_append] at hfuel
  obtain ⟨hparts, hcount⟩ := readsParts_of_readsAt functionParamHead (·.type) trailing h (by omega)
  exact primary_function names hparts (hresult (by omega) rest hrest) hcount

theorem readsAt_template {params : List (List Token × TemplateParam TypeExpr)}
    (names : ∀ p ∈ params, p.2.Named)
    (h : ∀ p ∈ params, ReadsAt fuel d .type .closed p.1 p.2.type)
    (hresult : ReadsAt fuel d .type .closed ts e) :
    ReadsAt fuel d .primary .result
      (.name "template" :: .openParen ::
        (entryTokens (params.map fun p => templateParamHead p.2 ++ p.1) trailing ++
          .closeParen :: .arrow :: ts)) (.template l (params.map (·.2)) e) := by
  intro hfuel rest hrest
  simp only [List.length_cons, List.length_append] at hfuel
  obtain ⟨hparts, hcount⟩ := readsParts_of_readsAt templateParamHead (·.type) trailing h (by omega)
  exact primary_template (reads_template names hparts (hresult (by omega) rest hrest) hcount)

end Compound

theorem Spells.readsAt (h : Spells d level b ts e) : ReadsAt fuel d level b ts e := by
  induction h with
  | single _ ih => exact readsAt_single ih
  | union l init nonempty _ _ ihinit ihlast => exact readsAt_union l nonempty ihinit ihlast
  | operand _ ih => exact readsAt_operand ih
  | intersection l init nonempty _ _ ihinit ihlast =>
    exact readsAt_intersection l nonempty ihinit ihlast
  | plain _ ih => exact readsAt_plain ih
  | access paths nonempty _ hm ih => exact readsAt_access nonempty ih hm
  | unknown _ | quoted _ _ | number _ _ =>
    intro _ rest _
    refine Reads.peek.look fun found hfound => ?_
    subst hfound
    exact Reads.advance.last fun _ _ => .ret (by simp [same])
  | keyword l h =>
    intro _ rest hrest
    exact primary_name (fun _ => hrest .openParen (by simp [continuations])) (reads_keyword h)
  | named l h =>
    intro _ rest hrest
    exact primary_name (fun _ => hrest .openParen (by simp [continuations]))
      (reads_named h (hrest .less (by simp [continuations])))
  | generic l h arguments harguments ih =>
    exact readsAt_generic h (fun p hp => (harguments p hp).opensType) ih
  | parens h ih => exact readsAt_parens h.opensType ih
  | record l fields trailing names _ ih => exact readsAt_record names ih
  | function l params trailing names _ _ ih ihresult => exact readsAt_function names ih ihresult
  | template l params trailing names _ _ ih ihresult => exact readsAt_template names ih ihresult

theorem ofTokens_of_spells {file : Option String} {size : Nat} {tokens : List PlacedToken}
    (h : Spells nestingLimit .type .closed (tokens.map (·.token)) e) :
    ∃ m, ofTokens file size tokens = .ok m ∧ same m e := by
  have htype : ReadsAs (Parse.typeWithin tokens.length nestingLimit) _ [] e :=
    h.readsAt (by simp) [] (by simp [Stops])
  have hwhole : ReadsAs (Parse.whole tokens.length) (tokens.map (·.token)) [] e :=
    htype.last fun a ha => Reads.peek.last fun found hfound => by
      subst hfound
      exact .ret ha
  obtain ⟨m, c, hm, hsame, -⟩ := hwhole ⟨file, size, tokens, 0⟩ (by simp)
  exact ⟨m, by rw [ofTokens, StateT.run'_eq, hm]; rfl, hsame⟩

end TemplateCheck.TypeExpr
