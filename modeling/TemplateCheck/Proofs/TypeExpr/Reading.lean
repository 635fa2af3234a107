import Mathlib.Data.List.Forall2
import TemplateCheck.Proofs.TypeExpr.Grammar

/-! What a parser takes from the front of the tokens, apart from their places in the text. Each
combinator of the parser has one lemma; a rule of the parser is then read off its binds. -/

namespace TemplateCheck.TypeExpr
variable {α β : Type}

/-- On tokens that begin with `ts` and go on with `rest`, the parser takes `ts` and its result
meets `post`. -/
def Reads (p : Parse α) (ts rest : List Token) (post : α → Prop) : Prop :=
  ∀ c : Cursor, c.tokens.map (·.token) = ts ++ rest →
    ∃ a c', p.run c = .ok (a, c') ∧ post a ∧ c'.tokens.map (·.token) = rest

namespace Reads
variable {p : Parse α} {f : α → Parse β} {t : Token} {ts us rest : List Token}
  {P P' : α → Prop} {Q : β → Prop}

theorem ret {a : α} (h : P a) : Reads (pure a) [] rest P :=
  fun c hc => ⟨a, c, rfl, h, hc⟩

theorem mono (hp : Reads p ts rest P) (h : ∀ a, P a → P' a) : Reads p ts rest P' := by
  intro c hc
  obtain ⟨a, c', ha, hPa, hc'⟩ := hp c hc
  exact ⟨a, c', ha, h a hPa, hc'⟩

theorem bind (hp : Reads p ts (us ++ rest) P) (hf : ∀ a, P a → Reads (f a) us rest Q) :
    Reads (p >>= f) (ts ++ us) rest Q := by
  intro c hc
  obtain ⟨a, c', ha, hPa, hc'⟩ := hp c (by rw [hc, List.append_assoc])
  obtain ⟨b, c'', hb, hQb, hc''⟩ := hf a hPa c' hc'
  refine ⟨b, c'', ?_, hQb, hc''⟩
  rw [StateT.run_bind, ha]
  exact hb

theorem look (hp : Reads p [] (us ++ rest) P) (hf : ∀ a, P a → Reads (f a) us rest Q) :
    Reads (p >>= f) us rest Q := hp.bind hf

theorem pass (hp : Reads p [t] (us ++ rest) P) (hf : ∀ a, P a → Reads (f a) us rest Q) :
    Reads (p >>= f) (t :: us) rest Q := hp.bind hf

theorem last (hp : Reads p ts rest P) (hf : ∀ a, P a → Reads (f a) [] rest Q) :
    Reads (p >>= f) ts rest Q := by
  rw [← List.append_nil ts]
  exact hp.bind hf

section Tokens

theorem getState : Reads (get : Parse Cursor) [] rest (fun _ => True) :=
  fun c hc => ⟨c, c, rfl, trivial, hc⟩

theorem locate {start stop : Nat} : Reads (Parse.locate start stop) [] rest (fun _ => True) :=
  fun c hc => ⟨⟨c.file, start, stop⟩, c, rfl, trivial, hc⟩

theorem lookahead (k : Nat) : Reads (Parse.lookahead k) [] rest (· = rest[k]?) := by
  intro c hc
  refine ⟨_, c, rfl, ?_, hc⟩
  rw [← List.getElem?_map, hc, List.nil_append]

theorem peek : Reads Parse.peek [] rest (· = rest.head?) := by
  rw [List.head?_eq_getElem?]
  exact lookahead 0

theorem advance : Reads Parse.advance [t] rest (fun _ => True) := by
  intro c hc
  obtain ⟨next, tail, htokens, -, htail⟩ := List.map_eq_cons_iff.1 hc
  refine ⟨⟨c.file, next.start, next.stop⟩, { c with tokens := tail, lastStop := next.stop },
    ?_, trivial, htail⟩
  simp only [Parse.advance, StateT.run_bind, StateT.run_get, pure_bind, htokens]
  rfl

theorem eat : Reads (Parse.eat t) [t] rest (· = true) :=
  peek.look fun found hfound => by
    rw [if_pos (show found = some t from hfound)]
    exact advance.last fun _ _ => ret rfl

theorem eat_other (h : rest.head? ≠ some t) : Reads (Parse.eat t) [] rest (· = false) :=
  peek.look fun found hfound => by
    rw [if_neg (hfound ▸ h)]
    exact ret rfl

theorem expect {e : Expected} : Reads (Parse.expect t e) [t] rest (fun _ => True) :=
  peek.look fun found hfound => by
    rw [if_pos (show found = some t from hfound)]
    exact advance

theorem simpleName {text : String} {e : Expected} (h : Text.isDotted text = false) :
    Reads (Parse.simpleName e) [.name text] rest (·.1 = text) :=
  peek.look fun found hfound => by
    subst hfound
    simp only [List.cons_append, List.nil_append, List.head?_cons, h, Bool.false_eq_true, if_false]
    exact advance.last fun _ _ => ret rfl

end Tokens

section Rows

variable {γ : Type} {sep close : Token} {item : Parse α} {R : γ → α → Prop}

theorem separate_cons (ts : List Token) (rest : List (List Token)) (h : rest ≠ []) :
    separate sep (ts :: rest) = ts ++ sep :: separate sep rest := by
  cases rest with
  | nil => exact absurd rfl h
  | cons us rest => rfl

theorem separated_none (hrest : rest.head? ≠ some sep) (fuel : Nat) :
    Reads (Parse.separated sep item fuel) [] rest (· = []) := by
  cases fuel with
  | zero => exact ret rfl
  | succ fuel =>
    refine (eat_other hrest).look fun _ hate => ?_
    subst hate
    exact ret rfl

theorem separated (last : List Token × γ) (hlast : Reads item last.1 rest (R last.2))
    (hrest : rest.head? ≠ some sep) (init : List (List Token × γ))
    (hinit : ∀ p ∈ init, ∀ more, Reads item p.1 (sep :: more) (R p.2))
    {fuel : Nat} (hfuel : init.length < fuel) :
    Reads (Parse.separated sep item fuel) (sep :: separate sep (init.map (·.1) ++ [last.1])) rest
      (List.Forall₂ R (init.map (·.2) ++ [last.2])) := by
  induction init generalizing fuel with
  | nil =>
    obtain ⟨fuel, rfl⟩ := Nat.exists_eq_add_of_lt hfuel
    refine eat.pass fun _ hate => ?_
    subst hate
    refine hlast.last fun a ha => (separated_none hrest _).last fun as has => ?_
    subst has
    exact ret (.cons ha .nil)
  | cons p init ih =>
    obtain ⟨fuel, rfl⟩ := Nat.exists_eq_add_of_lt hfuel
    have hp := hinit p (List.mem_cons_self ..)
    rw [List.map_cons, List.cons_append, separate_cons _ _ (by simp)]
    refine eat.pass fun _ hate => ?_
    subst hate
    refine (hp _).bind fun a ha => ?_
    have hmore := ih (fun q hq => hinit q (List.mem_cons_of_mem _ hq))
      (show init.length < (init.length + 1).add fuel from
        Nat.lt_add_right fuel (Nat.lt_succ_self _))
    refine hmore.last fun as has => ?_
    exact ret (.cons ha has)

theorem entryTokens_nil (trailing : Bool) : entryTokens [] trailing = [] := by
  simp [entryTokens, separate, commaEnd]

theorem entryTokens_last (ts : List Token) : entryTokens [ts] false = ts := by
  simp [entryTokens, separate, commaEnd]

theorem entryTokens_cons (ts : List Token) (items : List (List Token)) (trailing : Bool)
    (h : items ≠ [] ∨ trailing = true) :
    entryTokens (ts :: items) trailing = ts ++ .comma :: entryTokens items trailing := by
  cases items with
  | nil =>
    obtain rfl : trailing = true := h.resolve_left (· rfl)
    simp [entryTokens, separate, commaEnd]
  | cons us items => simp [entryTokens, separate, commaEnd]

theorem entryTokens_front (ts : List Token) (items : List (List Token)) (trailing : Bool) :
    ∃ more, entryTokens (ts :: items) trailing = ts ++ more := by
  by_cases h : items ≠ [] ∨ trailing = true
  · exact ⟨_, entryTokens_cons _ _ _ h⟩
  · simp only [not_or, not_not, Bool.not_eq_true] at h
    obtain ⟨rfl, rfl⟩ := h
    exact ⟨[], by rw [entryTokens_last, List.append_nil]⟩

theorem entries (items : List (List Token × γ)) (trailing : Bool)
    (hitem : ∀ p ∈ items, ∀ next more, next = .comma ∨ next = close →
      Reads item p.1 (next :: more) (R p.2))
    (hhead : ∀ p ∈ items, ∃ t ts, p.1 = t :: ts ∧ t ≠ close) (hclose : close ≠ .comma)
    {fuel : Nat} (hfuel : items.length ≤ fuel) :
    Reads (Parse.entries close item fuel) (entryTokens (items.map (·.1)) trailing)
      (close :: rest) (List.Forall₂ R (items.map (·.2))) := by
  induction items generalizing fuel with
  | nil =>
    rw [List.map_nil, List.map_nil, entryTokens_nil]
    cases fuel with
    | zero => exact ret .nil
    | succ fuel =>
      refine peek.look fun found hfound => ?_
      rw [if_pos (show found = some close from hfound)]
      exact ret .nil
  | cons p items ih =>
    obtain ⟨fuel, rfl⟩ := Nat.exists_eq_add_of_le' (show 1 ≤ fuel by simp at hfuel; omega)
    obtain ⟨t, ts, hts, ht⟩ := hhead p (List.mem_cons_self ..)
    have hp := hitem p (List.mem_cons_self ..)
    have hmore := @ih (fun q hq => hitem q (List.mem_cons_of_mem _ hq))
      (fun q hq => hhead q (List.mem_cons_of_mem _ hq)) fuel (by simp at hfuel; omega)
    by_cases h : items.map (·.1) ≠ [] ∨ trailing = true
    · rw [List.map_cons, entryTokens_cons _ _ _ h]
      refine peek.look fun found hfound => ?_
      rw [if_neg (by subst hfound; simpa [hts] using ht)]
      refine (hp _ _ (.inl rfl)).bind fun a ha => eat.pass fun _ hate => ?_
      subst hate
      exact hmore.last fun as has => ret (.cons ha has)
    · simp only [not_or, not_not, List.map_eq_nil_iff, Bool.not_eq_true] at h
      obtain ⟨rfl, rfl⟩ := h
      rw [List.map_cons, List.map_nil, entryTokens_last]
      refine peek.look fun found hfound => ?_
      rw [if_neg (by subst hfound; simpa [hts] using ht)]
      refine (hp _ _ (.inr rfl)).last fun a ha => ?_
      refine (eat_other (by simpa using hclose)).look fun _ hate => ?_
      subst hate
      exact ret (.cons ha .nil)

end Rows
end Reads
end TemplateCheck.TypeExpr
