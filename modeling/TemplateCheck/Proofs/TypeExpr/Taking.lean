import TemplateCheck.Proofs.TypeExpr.Reading

/-! What a run of the parser that ended well took from the front of the tokens. A run is taken
apart at its binds; each combinator has one lemma about what it took. -/

namespace TemplateCheck.TypeExpr
variable {α β : Type}

def Cursor.ahead (c : Cursor) : List Token := c.tokens.map (·.token)

section Runs
variable {c c' c'' : Cursor} {a a' : α} {b : β} {t : Token} {found : Bool} {place : Location}
  {expected : Expected} {name : String × Location}

theorem ok_of_bind {p : Parse α} {f : α → Parse β} (h : (p >>= f).run c = .ok (b, c'')) :
    ∃ a c', p.run c = .ok (a, c') ∧ (f a).run c' = .ok (b, c'') := by
  rw [StateT.run_bind] at h
  cases hp : p.run c with
  | error e =>
    rw [hp] at h
    cases h
  | ok result =>
    rw [hp] at h
    exact ⟨result.1, result.2, rfl, h⟩

theorem ok_of_pure (h : (pure a : Parse α).run c = .ok (a', c')) : a' = a ∧ c' = c := by
  cases h
  exact ⟨rfl, rfl⟩

theorem run_lookahead_bind (k : Nat) (f : Option Token → Parse β) (c : Cursor) :
    (Parse.lookahead k >>= f).run c = (f c.ahead[k]?).run c := by
  have hahead : c.ahead[k]? = (c.tokens[k]?).map (·.token) := List.getElem?_map ..
  rw [hahead]
  rfl

theorem run_peek_bind (f : Option Token → Parse β) (c : Cursor) :
    (Parse.peek >>= f).run c = (f c.ahead.head?).run c := by
  rw [List.head?_eq_getElem?]
  exact run_lookahead_bind 0 f c

theorem run_locate_bind (start stop : Nat) (f : Location → Parse β) (c : Cursor) :
    (Parse.locate start stop >>= f).run c = (f ⟨c.file, start, stop⟩).run c := rfl

theorem run_failWith_ne (fault : SyntaxFault) : (Parse.failWith fault).run c ≠ .ok (a, c') := by
  intro h
  cases h

theorem run_fail_ne : (Parse.fail expected).run c ≠ .ok (a, c') := by
  intro h
  rw [Parse.fail, run_peek_bind] at h
  exact run_failWith_ne _ h

theorem ahead_of_advance (h : Parse.advance.run c = .ok (place, c')) (ht : c.ahead.head? = some t) :
    c.ahead = t :: c'.ahead := by
  obtain ⟨next, rest, htokens, rfl, -⟩ := List.map_eq_cons_iff.1 (List.eq_cons_of_mem_head? ht)
  simp only [Parse.advance, StateT.run_bind, StateT.run_get, pure_bind, htokens] at h
  cases h
  rw [Cursor.ahead, htokens]
  rfl

theorem ok_of_eat (h : (Parse.eat t).run c = .ok (found, c')) :
    found = true ∧ c.ahead = t :: c'.ahead ∨
      found = false ∧ c = c' ∧ c.ahead.head? ≠ some t := by
  rw [Parse.eat, run_peek_bind] at h
  split at h
  next ht =>
    obtain ⟨place, c₁, hadvance, h⟩ := ok_of_bind h
    obtain ⟨rfl, rfl⟩ := ok_of_pure h
    exact .inl ⟨rfl, ahead_of_advance hadvance ht⟩
  next ht =>
    obtain ⟨rfl, rfl⟩ := ok_of_pure h
    exact .inr ⟨rfl, rfl, ht⟩

theorem ahead_of_expect (h : (Parse.expect t expected).run c = .ok (place, c')) :
    c.ahead = t :: c'.ahead := by
  rw [Parse.expect, run_peek_bind] at h
  split at h
  next ht => exact ahead_of_advance h ht
  next => exact absurd h run_fail_ne

theorem ahead_of_simpleName (h : (Parse.simpleName expected).run c = .ok (name, c')) :
    c.ahead = .name name.1 :: c'.ahead ∧ Text.isDotted name.1 = false := by
  rw [Parse.simpleName, run_peek_bind] at h
  split at h
  next text ht =>
    split at h
    next => exact absurd h run_fail_ne
    next hdot =>
      obtain ⟨place, c₁, hadvance, h⟩ := ok_of_bind h
      obtain ⟨rfl, rfl⟩ := ok_of_pure h
      exact ⟨ahead_of_advance hadvance ht, by simpa using hdot⟩
  next => exact absurd h run_fail_ne

end Runs

/-- From at most `n` tokens, the parser takes some with which its result and the tokens left meet
`post`. -/
def Takes (n : Nat) (p : Parse α) (post : List Token → α → List Token → Prop) : Prop :=
  ∀ ⦃c a c'⦄, c.ahead.length ≤ n → p.run c = .ok (a, c') →
    ∃ ts, c.ahead = ts ++ c'.ahead ∧ post ts a c'.ahead

theorem length_le_of_append {n : Nat} {ts us vs : List Token} (h : us = ts ++ vs)
    (hn : us.length ≤ n) : vs.length ≤ n := by
  rw [h, List.length_append] at hn
  omega

theorem length_le_of_cons {n : Nat} {t : Token} {us vs : List Token} (h : us = t :: vs)
    (hn : us.length ≤ n) : vs.length ≤ n := by
  rw [h, List.length_cons] at hn
  omega

section Rows
variable {n fuel : Nat} {sep close : Token} {item : Parse α}
  {P : List Token → α → List Token → Prop}

structure IsRow (sep : Token) (P : List Token → α → List Token → Prop)
    (init : List (List Token × α)) (last : List Token × α) (rest : List Token) : Prop where
  init : ∀ p ∈ init, ∃ more, P p.1 p.2 (sep :: more)
  last : P last.1 last.2 rest
  stops : rest.head? ≠ some sep

theorem ok_of_separated (hitem : Takes n item P) {c c' : Cursor} {as : List α}
    (hn : c.ahead.length ≤ n) (hfuel : c.ahead.length ≤ fuel)
    (h : (Parse.separated sep item fuel).run c = .ok (as, c')) :
    as = [] ∧ c'.ahead = c.ahead ∧ c.ahead.head? ≠ some sep ∨
      ∃ init last, IsRow sep P init last c'.ahead ∧ as = init.map (·.2) ++ [last.2] ∧
        c.ahead = sep :: (separate sep (init.map (·.1) ++ [last.1]) ++ c'.ahead) := by
  induction fuel generalizing c as with
  | zero =>
    obtain ⟨rfl, rfl⟩ := ok_of_pure h
    have hnil : c'.ahead = [] := List.eq_nil_of_length_eq_zero (Nat.le_zero.1 hfuel)
    exact .inl ⟨rfl, rfl, by simp [hnil]⟩
  | succ fuel ih =>
    obtain ⟨found, c₁, heat, h⟩ := ok_of_bind h
    rcases ok_of_eat heat with ⟨rfl, hsep⟩ | ⟨rfl, rfl, hsep⟩
    · obtain ⟨a, c₂, hrun, h⟩ := ok_of_bind h
      obtain ⟨others, c₃, hothers, h⟩ := ok_of_bind h
      obtain ⟨rfl, rfl⟩ := ok_of_pure h
      have hn₁ : c₁.ahead.length ≤ n := length_le_of_cons hsep hn
      obtain ⟨ts, hts, hP⟩ := hitem hn₁ hrun
      have hfuel₁ : c₁.ahead.length ≤ fuel := by
        rw [hsep, List.length_cons] at hfuel
        omega
      rcases ih (length_le_of_append hts hn₁) (length_le_of_append hts hfuel₁) hothers with
        ⟨rfl, heq, hstops⟩ | ⟨init, last, hrow, rfl, heq⟩
      · refine .inr ⟨[], (ts, a), ⟨by simp, heq ▸ hP, heq ▸ hstops⟩, rfl, ?_⟩
        rw [hsep, hts, heq]
        rfl
      · have hrow' : IsRow sep P ((ts, a) :: init) last c'.ahead :=
          ⟨List.forall_mem_cons.2 ⟨⟨_, heq ▸ hP⟩, hrow.init⟩, hrow.last, hrow.stops⟩
        refine .inr ⟨_, _, hrow', rfl, ?_⟩
        rw [hsep, hts, heq, List.map_cons, List.cons_append, Reads.separate_cons _ _ (by simp),
          List.append_assoc, List.cons_append]
    · obtain ⟨rfl, rfl⟩ := ok_of_pure h
      exact .inl ⟨rfl, rfl, hsep⟩

theorem entryTokens_comma (ts : List Token) (items : List (List Token)) (trailing : Bool) :
    entryTokens (ts :: items) (trailing || items.isEmpty) =
      ts ++ .comma :: entryTokens items trailing := by
  cases items with
  | nil => rw [Reads.entryTokens_cons _ _ _ (by simp), Reads.entryTokens_nil, Reads.entryTokens_nil]
  | cons us items => simp [entryTokens, separate, commaEnd]

theorem ok_of_entries {head : α → List Token} {Q : List Token → α → Prop}
    (hitem : Takes n item fun ts a _ => ∃ us, ts = head a ++ us ∧ Q us a) {c c' : Cursor}
    {as : List α} (hn : c.ahead.length ≤ n)
    (h : (Parse.entries close item fuel).run c = .ok (as, c')) :
    ∃ (parts : List (List Token × α)) (trailing : Bool), as = parts.map (·.2) ∧
      (∀ p ∈ parts, Q p.1 p.2) ∧
      c.ahead = entryTokens (parts.map fun p => head p.2 ++ p.1) trailing ++ c'.ahead := by
  induction fuel generalizing c as with
  | zero =>
    obtain ⟨rfl, rfl⟩ := ok_of_pure h
    exact ⟨[], false, rfl, by simp, rfl⟩
  | succ fuel ih =>
    rw [Parse.entries, run_peek_bind] at h
    split at h
    next =>
      obtain ⟨rfl, rfl⟩ := ok_of_pure h
      exact ⟨[], false, rfl, by simp, rfl⟩
    next =>
      obtain ⟨a, c₁, hrun, h⟩ := ok_of_bind h
      obtain ⟨ts, hts, us, rfl, hQ⟩ := hitem hn hrun
      have hn₁ := length_le_of_append hts hn
      obtain ⟨found, c₂, heat, h⟩ := ok_of_bind h
      rcases ok_of_eat heat with ⟨rfl, hcomma⟩ | ⟨rfl, rfl, -⟩
      · obtain ⟨others, c₃, hothers, h⟩ := ok_of_bind h
        obtain ⟨rfl, rfl⟩ := ok_of_pure h
        have hn₂ : c₂.ahead.length ≤ n := length_le_of_cons hcomma hn₁
        obtain ⟨parts, trailing, rfl, hparts, heq⟩ := ih hn₂ hothers
        refine ⟨(us, a) :: parts, trailing || parts.isEmpty, rfl,
          List.forall_mem_cons.2 ⟨hQ, hparts⟩, ?_⟩
        have hfront :=
          entryTokens_comma (head a ++ us) (parts.map fun p => head p.2 ++ p.1) trailing
        rw [List.isEmpty_map] at hfront
        rw [hts, hcomma, heq, List.map_cons, hfront, List.append_assoc (head a ++ us),
          List.cons_append]
      · obtain ⟨rfl, rfl⟩ := ok_of_pure h
        refine ⟨[(us, a)], false, rfl, by simpa using hQ, ?_⟩
        rw [hts, List.map_singleton, Reads.entryTokens_last]

end Rows
end TemplateCheck.TypeExpr
