import TemplateCheck.Proofs.TypeExpr.Soundness

/-! The parser accepts exactly its grammar. The grammar knows no places, so this is about
expressions up to the places of their parts: what is spelled is closed under `same`, and each list
of tokens spells one expression at most. -/

namespace TemplateCheck.TypeExpr
variable {d : Nat} {level : Level} {b b' : Ending} {ts : List Token} {e m n : TypeExpr}

section Equivalence
variable {α β γ : Type}

theorem forall₂_join {R : α → β → Prop} {S : α → γ → Prop} {T : β → γ → Prop} {as : List α}
    {bs : List β} {cs : List γ} (h : List.Forall₂ R as bs) (h' : List.Forall₂ S as cs)
    (hT : ∀ a ∈ as, ∀ b c, R a b → S a c → T b c) : List.Forall₂ T bs cs := by
  induction h generalizing cs with
  | nil =>
    cases h'
    exact .nil
  | cons hab _ ih =>
    cases h' with
    | cons hac h' =>
      refine .cons (hT _ (List.mem_cons_self ..) _ _ hab hac) (ih h' ?_)
      exact fun a ha => hT a (List.mem_cons_of_mem _ ha)

theorem same_refl (e : TypeExpr) : same e e := by
  induction e using induct with
  | named | literal => simp [same]
  | generic l name args ih =>
    rw [same, beq_self_eq_true, Bool.true_and, sameAll_iff, List.forall₂_same]
    exact ih
  | union l args ih | intersection l args ih =>
    rw [same, sameAll_iff, List.forall₂_same]
    exact ih
  | record l fields ih =>
    rw [same, sameFields_iff, List.forall₂_same]
    exact fun f hf => ⟨rfl, rfl, ih f hf⟩
  | template l params result ih ihr =>
    rw [same, ihr, Bool.and_true, sameTemplateParams_iff, List.forall₂_same]
    exact fun p hp => ⟨rfl, rfl, rfl, rfl, ih p hp⟩
  | function l params result ih ihr =>
    rw [same, ihr, Bool.and_true, sameFunctionParams_iff, List.forall₂_same]
    exact fun p hp => ⟨rfl, rfl, rfl, ih p hp⟩
  | indexed l base p ih => simp [same, ih]

theorem same_of_same (hm : same e m) (hn : same e n) : same m n := by
  induction e using induct generalizing m n with
  | named l name =>
    cases m <;> simp only [same, Bool.false_eq_true, beq_iff_eq] at hm
    cases n <;> simp only [same, Bool.false_eq_true, beq_iff_eq] at hn
    simp [same, ← hm, ← hn]
  | literal l value =>
    cases m <;> simp only [same, Bool.false_eq_true, beq_iff_eq] at hm
    cases n <;> simp only [same, Bool.false_eq_true, beq_iff_eq] at hn
    simp [same, ← hm, ← hn]
  | generic l name args ih =>
    cases m <;> simp only [same, Bool.false_eq_true, Bool.and_eq_true, beq_iff_eq,
      sameAll_iff] at hm
    cases n <;> simp only [same, Bool.false_eq_true, Bool.and_eq_true, beq_iff_eq,
      sameAll_iff] at hn
    rw [same, Bool.and_eq_true, sameAll_iff, beq_iff_eq]
    exact ⟨hm.1.symm.trans hn.1, forall₂_join hm.2 hn.2 fun a ha _ _ => ih a ha⟩
  | union l args ih | intersection l args ih =>
    cases m <;> simp only [same, Bool.false_eq_true, sameAll_iff] at hm
    cases n <;> simp only [same, Bool.false_eq_true, sameAll_iff] at hn
    rw [same, sameAll_iff]
    exact forall₂_join hm hn fun a ha _ _ => ih a ha
  | record l fields ih =>
    cases m <;> simp only [same, Bool.false_eq_true, sameFields_iff] at hm
    cases n <;> simp only [same, Bool.false_eq_true, sameFields_iff] at hn
    rw [same, sameFields_iff]
    refine forall₂_join hm hn fun f hf g g' hg hg' => ?_
    obtain ⟨hname, hoptional, htype⟩ := hg
    obtain ⟨hname', hoptional', htype'⟩ := hg'
    exact ⟨hname.symm.trans hname', hoptional.symm.trans hoptional', ih f hf htype htype'⟩
  | template l params result ih ihr =>
    cases m <;> simp only [same, Bool.false_eq_true, Bool.and_eq_true,
      sameTemplateParams_iff] at hm
    cases n <;> simp only [same, Bool.false_eq_true, Bool.and_eq_true,
      sameTemplateParams_iff] at hn
    rw [same, ihr hm.2 hn.2, Bool.and_true, sameTemplateParams_iff]
    refine forall₂_join hm.1 hn.1 fun p hp q q' hq hq' => ?_
    obtain ⟨hname, hspelling, hkind, hrequired, htype⟩ := hq
    obtain ⟨hname', hspelling', hkind', hrequired', htype'⟩ := hq'
    exact ⟨hname.symm.trans hname', hspelling.symm.trans hspelling', hkind.symm.trans hkind',
      hrequired.symm.trans hrequired', ih p hp htype htype'⟩
  | function l params result ih ihr =>
    cases m <;> simp only [same, Bool.false_eq_true, Bool.and_eq_true,
      sameFunctionParams_iff] at hm
    cases n <;> simp only [same, Bool.false_eq_true, Bool.and_eq_true,
      sameFunctionParams_iff] at hn
    rw [same, ihr hm.2 hn.2, Bool.and_true, sameFunctionParams_iff]
    refine forall₂_join hm.1 hn.1 fun p hp q q' hq hq' => ?_
    obtain ⟨hname, hspelling, hvariadic, htype⟩ := hq
    obtain ⟨hname', hspelling', hvariadic', htype'⟩ := hq'
    exact ⟨hname.symm.trans hname', hspelling.symm.trans hspelling',
      hvariadic.symm.trans hvariadic', ih p hp htype htype'⟩
  | indexed l base p ih =>
    cases m <;> simp only [same, Bool.false_eq_true, Bool.and_eq_true, beq_iff_eq] at hm
    cases n <;> simp only [same, Bool.false_eq_true, Bool.and_eq_true, beq_iff_eq] at hn
    rw [same, ih hm.2 hn.2, Bool.and_true, beq_iff_eq]
    exact hm.1.symm.trans hn.1

theorem same_symm (h : same m n) : same n m := same_of_same h (same_refl m)

end Equivalence

section Congruence

theorem exists_replaced {α β : Type} {R : α → α → Prop} {P : List Token → α → Prop}
    {f : List Token × α → β} {parts : List (List Token × α)} {as : List α}
    (h : List.Forall₂ R as (parts.map (·.2)))
    (hf : ∀ p ∈ parts, ∀ a, R a p.2 → f (p.1, a) = f p)
    (hP : ∀ p ∈ parts, ∀ a, R a p.2 → P p.1 a) :
    ∃ replaced : List (List Token × α), replaced.map f = parts.map f ∧
      replaced.map (·.2) = as ∧ ∀ p ∈ replaced, P p.1 p.2 := by
  induction parts generalizing as with
  | nil =>
    cases h
    exact ⟨[], rfl, rfl, by simp⟩
  | cons p parts ih =>
    cases h with
    | @cons a _ as _ ha h =>
      obtain ⟨replaced, heq, rfl, hreplaced⟩ := ih h
        (fun q hq => hf q (List.mem_cons_of_mem _ hq))
        (fun q hq => hP q (List.mem_cons_of_mem _ hq))
      refine ⟨(p.1, a) :: replaced, ?_, rfl, List.forall_mem_cons.2 ⟨?_, hreplaced⟩⟩
      · rw [List.map_cons, List.map_cons, heq, hf p (List.mem_cons_self ..) a ha]
      · exact hP p (List.mem_cons_self ..) a ha

theorem exists_replaced_init {P Q : List Token → TypeExpr → Prop}
    {init : List (List Token × TypeExpr)} {es : List TypeExpr}
    (h : List.Forall₂ (fun a b => same a b) es (init.map (·.2) ++ [e]))
    (hinit : ∀ p ∈ init, ∀ a, same p.2 a → P p.1 a) (hlast : ∀ a, same e a → Q ts a) :
    ∃ (replaced : List (List Token × TypeExpr)) (a : TypeExpr),
      replaced.map (·.1) = init.map (·.1) ∧ es = replaced.map (·.2) ++ [a] ∧
      (∀ p ∈ replaced, P p.1 p.2) ∧ Q ts a := by
  have hfront := List.forall₂_take_append _ _ _ h
  have hback := List.forall₂_drop_append _ _ _ h
  obtain ⟨replaced, heq, hvalues, hreplaced⟩ := exists_replaced (f := (·.1)) hfront
    (fun _ _ _ _ => rfl) fun p hp a ha => hinit p hp a (same_symm ha)
  obtain ⟨a, as, ha, has, hdrop⟩ := List.forall₂_cons_right_iff.1 hback
  obtain rfl := List.forall₂_nil_right_iff.1 has
  refine ⟨replaced, a, heq, ?_, hreplaced, hlast a (same_symm ha)⟩
  rw [hvalues, ← hdrop, List.take_append_drop]

theorem Accessed.congr {path : List String} (h : Accessed e path m) (hmn : same n m) :
    ∃ k, same e k ∧ Accessed k path n := by
  induction h with
  | done e => exact ⟨n, same_symm hmn, .done n⟩
  | @step e m p path l _ ih =>
    obtain ⟨k, hk, haccessed⟩ := ih hmn
    cases k <;> simp only [same, Bool.false_eq_true, Bool.and_eq_true, beq_iff_eq] at hk
    obtain ⟨rfl, hbase⟩ := hk
    exact ⟨_, hbase, .step _ haccessed⟩

/-- The tokens of an expression spell all expressions that are the same. -/
def SpellsSame (d : Nat) (level : Level) (b : Ending) (ts : List Token) (m : TypeExpr) : Prop :=
  ∀ n, same m n → Spells d level b ts n

section Parts
variable {l : Location} {trailing : Bool} {init : List (List Token × TypeExpr)}

theorem SpellsSame.union (nonempty : init ≠ [])
    (hinit : ∀ p ∈ init, SpellsSame d .inter .closed p.1 p.2) (hlast : SpellsSame d .inter b ts e) :
    SpellsSame (d + 1) .type .closed (separate .bar (init.map (·.1) ++ [ts]))
      (.union l (init.map (·.2) ++ [e])) := by
  intro n hn
  obtain ⟨l', es, rfl, hes⟩ := eq_union_of_same (same_symm hn)
  obtain ⟨replaced, a, heq, rfl, hreplaced, hlast⟩ := exists_replaced_init hes
    (fun p hp a ha => hinit p hp a ha) hlast
  rw [← heq]
  exact .union l' replaced (by rintro rfl; simp_all) hreplaced hlast

theorem SpellsSame.intersection (nonempty : init ≠ [])
    (hinit : ∀ p ∈ init, SpellsSame d .post .closed p.1 p.2) (hlast : SpellsSame d .post b ts e) :
    SpellsSame d .inter b (separate .ampersand (init.map (·.1) ++ [ts]))
      (.intersection l (init.map (·.2) ++ [e])) := by
  intro n hn
  obtain ⟨l', es, rfl, hes⟩ := eq_intersection_of_same (same_symm hn)
  obtain ⟨replaced, a, heq, rfl, hreplaced, hlast⟩ := exists_replaced_init hes
    (fun p hp a ha => hinit p hp a ha) hlast
  rw [← heq]
  exact .intersection l' replaced (by rintro rfl; simp_all) hreplaced hlast

theorem SpellsSame.generic {name : String} (hname : name ∉ keywords.map (·.1))
    {arguments : List (List Token × TypeExpr)}
    (h : ∀ p ∈ arguments, SpellsSame d .type .closed p.1 p.2) :
    SpellsSame d .primary .closed
      (.name name :: .less :: (separate .comma (arguments.map (·.1)) ++ [.greater]))
      (.generic l name (arguments.map (·.2))) := by
  intro n hn
  obtain ⟨l', es, rfl, hes⟩ := eq_generic_of_same (same_symm hn)
  obtain ⟨replaced, heq, rfl, hreplaced⟩ := exists_replaced (f := (·.1)) hes
    (fun _ _ _ _ => rfl) fun p hp a ha => h p hp a (same_symm ha)
  rw [← heq]
  exact .generic l' hname replaced hreplaced

theorem SpellsSame.record {fields : List (List Token × Field TypeExpr)}
    (names : ∀ p ∈ fields, Text.isDotted p.2.name = false)
    (h : ∀ p ∈ fields, SpellsSame d .type .closed p.1 p.2.type) :
    SpellsSame d .primary .closed
      (.openBracket :: (entryTokens (fields.map fun p => fieldHead p.2 ++ p.1) trailing ++
        [.closeBracket])) (.record l (fields.map (·.2))) := by
  intro n hn
  obtain ⟨l', fs, rfl, hfs⟩ := eq_record_of_same (same_symm hn)
  obtain ⟨replaced, heq, rfl, hreplaced⟩ := exists_replaced
    (P := fun ts f => Text.isDotted f.name = false ∧ Spells d .type .closed ts f.type)
    (f := fun p => fieldHead p.2 ++ p.1) hfs
    (fun p _ f hf => by simp only [fieldHead, hf.1, hf.2.1])
    fun p hp f hf => ⟨hf.1 ▸ names p hp, h p hp _ (same_symm hf.2.2)⟩
  rw [← heq]
  exact .record l' replaced trailing (fun p hp => (hreplaced p hp).1)
    fun p hp => (hreplaced p hp).2

theorem SpellsSame.function {params : List (List Token × FunctionParam TypeExpr)}
    (names : ∀ p ∈ params, p.2.Named)
    (h : ∀ p ∈ params, SpellsSame d .type .closed p.1 p.2.type)
    (hresult : SpellsSame d .type .closed ts e) :
    SpellsSame d .primary .result
      (.openParen :: (entryTokens (params.map fun p => functionParamHead p.2 ++ p.1) trailing ++
        .closeParen :: .arrow :: ts)) (.function l (params.map (·.2)) e) := by
  intro n hn
  obtain ⟨l', ps, u, rfl, hps, hu⟩ := eq_function_of_same (same_symm hn)
  obtain ⟨replaced, heq, rfl, hreplaced⟩ := exists_replaced
    (P := fun ts p => p.Named ∧ Spells d .type .closed ts p.type)
    (f := fun p => functionParamHead p.2 ++ p.1) hps
    (fun p _ q hq => by simp only [functionParamHead, hq.2.1, hq.2.2.1])
    fun p hp q hq => ⟨by rw [FunctionParam.Named, hq.1, hq.2.1]; exact names p hp,
      h p hp _ (same_symm hq.2.2.2)⟩
  rw [← heq]
  exact .function l' replaced trailing (fun p hp => (hreplaced p hp).1)
    (fun p hp => (hreplaced p hp).2) (hresult _ (same_symm hu))

theorem SpellsSame.template {params : List (List Token × TemplateParam TypeExpr)}
    (names : ∀ p ∈ params, p.2.Named)
    (h : ∀ p ∈ params, SpellsSame d .type .closed p.1 p.2.type)
    (hresult : SpellsSame d .type .closed ts e) :
    SpellsSame d .primary .result
      (.name "template" :: .openParen ::
        (entryTokens (params.map fun p => templateParamHead p.2 ++ p.1) trailing ++
          .closeParen :: .arrow :: ts)) (.template l (params.map (·.2)) e) := by
  intro n hn
  obtain ⟨l', ps, u, rfl, hps, hu⟩ := eq_template_of_same (same_symm hn)
  obtain ⟨replaced, heq, rfl, hreplaced⟩ := exists_replaced
    (P := fun ts p => p.Named ∧ Spells d .type .closed ts p.type)
    (f := fun p => templateParamHead p.2 ++ p.1) hps
    (fun p _ q hq => by simp only [templateParamHead, paramToken, hq.2.1, hq.2.2.1, hq.2.2.2.1])
    fun p hp q hq => ⟨by
      rw [TemplateParam.Named, hq.1, hq.2.1, hq.2.2.1]
      exact names p hp, h p hp _ (same_symm hq.2.2.2.2)⟩
  rw [← heq]
  exact .template l' replaced trailing (fun p hp => (hreplaced p hp).1)
    (fun p hp => (hreplaced p hp).2) (hresult _ (same_symm hu))

end Parts

theorem Spells.congr (h : Spells d level b ts m) : SpellsSame d level b ts m := by
  induction h with
  | single _ ih => exact fun n hn => .single (ih n hn)
  | operand _ ih => exact fun n hn => .operand (ih n hn)
  | plain _ ih => exact fun n hn => .plain (ih n hn)
  | union l init nonempty _ _ ihinit ihlast => exact .union nonempty ihinit ihlast
  | intersection l init nonempty _ _ ihinit ihlast => exact .intersection nonempty ihinit ihlast
  | access paths nonempty _ hm ih =>
    intro n hn
    obtain ⟨k, hk, haccessed⟩ := hm.congr (same_symm hn)
    exact .access paths nonempty (ih k hk) haccessed
  | unknown l =>
    intro n hn
    obtain ⟨l', rfl⟩ := eq_named_of_same (same_symm hn)
    exact .unknown l'
  | quoted l value =>
    intro n hn
    obtain ⟨l', rfl⟩ := eq_literal_of_same (same_symm hn)
    exact .quoted l' value
  | number l text =>
    intro n hn
    obtain ⟨l', rfl⟩ := eq_literal_of_same (same_symm hn)
    exact .number l' text
  | keyword l h =>
    intro n hn
    obtain ⟨l', rfl⟩ := eq_literal_of_same (same_symm hn)
    exact .keyword l' h
  | named l h =>
    intro n hn
    obtain ⟨l', rfl⟩ := eq_named_of_same (same_symm hn)
    exact .named l' h
  | generic l h arguments _ ih => exact .generic h ih
  | parens _ ih => exact fun n hn => .parens (ih n hn)
  | record l fields trailing names _ ih => exact .record names ih
  | function l params trailing names _ _ ih ihresult => exact .function names ih ihresult
  | template l params trailing names _ _ ih ihresult => exact .template names ih ihresult

end Congruence

theorem Spells.unique (hm : Spells d level b ts m) (hn : Spells d level b' ts n) : same m n := by
  have hstops (ending : Ending) : Stops level ending [] := fun t _ h => nomatch h
  let start : Cursor := ⟨none, 0, ts.map fun t => ⟨t, 0, 0⟩, 0⟩
  have htokens : start.tokens.map (·.token) = ts ++ [] := by simp [start, Function.comp_def]
  obtain ⟨k, c, hk, hkm, -⟩ := hm.readsAt (Nat.le_refl _) [] (hstops b) start htokens
  obtain ⟨k', c', hk', hkn, -⟩ := hn.readsAt (Nat.le_refl _) [] (hstops b') start htokens
  rw [hk] at hk'
  cases hk'
  exact same_of_same hkm hkn

/-- A list of tokens is read as an expression exactly if it spells that expression, which no list
does of two different ones. -/
theorem ofTokens_iff_spells (file : Option String) (size : Nat) (tokens : List PlacedToken) :
    (∀ n, (∃ m, ofTokens file size tokens = .ok m ∧ same m n) ↔
      Spells nestingLimit .type .closed (tokens.map (·.token)) n) ∧
    ∀ m n, Spells nestingLimit .type .closed (tokens.map (·.token)) m →
      Spells nestingLimit .type .closed (tokens.map (·.token)) n → same m n := by
  refine ⟨fun n => ⟨?_, ofTokens_of_spells⟩, fun m n hm hn => hm.unique hn⟩
  rintro ⟨m, hm, hsame⟩
  exact (spells_of_ofTokens hm).congr _ hsame

end TemplateCheck.TypeExpr
