import TemplateCheck.Proofs.Lists
import TemplateCheck.Proofs.TypeExpr.Layout

/-! How many types are open at most inside a list of tokens. Brackets and arrows open types, and
closing brackets and commas close them, so this can be told without reading the tokens. No reading
within a lower depth is possible. -/

namespace TemplateCheck.TypeExpr

namespace Token

def opens (t : Token) : Bool := t ∈ [less, openParen, openBracket]

def closes (t : Token) : Bool := t ∈ [greater, closeParen, closeBracket]

def joins (t : Token) : Bool := t ∈ [bar, ampersand, dot, colon, ellipsis]

def stands (t : Token) : Bool := !(t.opens || t.closes || t.joins || t == comma || t == arrow)

end Token

def deepest (level : Nat) (outer : List Nat) : List Token → Nat
  | [] => 0
  | t :: ts =>
    if t.opens then max (level + 1) (deepest (level + 1) (level :: outer) ts)
    else if t.closes then deepest (outer.headD 0) outer.tail ts
    else if t.joins then deepest level outer ts
    else if t = .comma then deepest (outer.headD 0 + 1) outer ts
    else if t = .arrow then deepest (level + 1) outer ts
    else max (level + 1) (deepest level outer ts)

theorem deepest_close {close : Token} (h : close.closes) (level n : Nat) (outer : List Nat)
    (rest : List Token) : deepest level (n :: outer) (close :: rest) = deepest n outer rest := by
  have hopens : close.opens = false := by cases close <;> first | rfl | cases h
  simp [deepest, hopens, h]

def Spans (level : Nat) (ts : List Token) (k level' : Nat) : Prop :=
  ∀ outer rest, deepest level outer (ts ++ rest) = max k (deepest level' outer rest)

def Fills (level : Nat) (ts : List Token) (k : Nat) : Prop :=
  ∀ outer rest (close : Token), close.closes → deepest (level + 1) (level :: outer)
    (ts ++ close :: rest) = max k (deepest level outer rest)

namespace Spans
variable {level k n k' n' : Nat} {ts us : List Token} {t open' close : Token}

theorem nil (level : Nat) : Spans level [] 0 level := fun _ _ => (Nat.zero_max _).symm

theorem stands (h : t.stands) : Spans level [t] (level + 1) level := by
  intro outer rest
  simp only [Token.stands, Bool.not_eq_true', Bool.or_eq_false_iff, beq_eq_false_iff_ne] at h
  simp [deepest, h]

theorem joins (h : t.joins) : Spans level [t] 0 level := by
  intro outer rest
  have hclosed : t.opens = false ∧ t.closes = false := by
    cases t <;> first | exact ⟨rfl, rfl⟩ | cases h
  simp [deepest, hclosed, h]

theorem arrow (level : Nat) : Spans level [.arrow] 0 (level + 1) := by
  intro outer rest
  simp [deepest, Token.opens, Token.closes, Token.joins]

theorem append (h : Spans level ts k n) (h' : Spans n us k' n') :
    Spans level (ts ++ us) (max k k') n' := by
  intro outer rest
  rw [List.append_assoc, h, h', Nat.max_assoc]

theorem deepest_eq (h : Spans level ts k n) : deepest level [] ts = k := by
  have hall := h [] []
  rwa [List.append_nil, deepest, Nat.max_zero] at hall

theorem bracket (hopen : open'.opens) (hclose : close.closes) (h : Fills level ts k) :
    Spans level (open' :: (ts ++ [close])) (max (level + 1) k) level := by
  intro outer rest
  rw [List.cons_append, List.append_assoc, deepest, if_pos hopen, Nat.max_assoc]
  exact congrArg _ (h outer rest close hclose)

theorem separate {init : List (List Token)} {last : List Token} (ht : t.joins)
    (hinit : ∀ ts ∈ init, ∃ k, Spans level ts k level) (hlast : Spans level last k n) :
    Spans level (TypeExpr.separate t (init ++ [last]))
      (max (greatest (init.map (deepest level []))) k) n := by
  induction init with
  | nil => rwa [List.map_nil, greatest, List.foldr_nil, Nat.zero_max]
  | cons ts init ih =>
    rw [List.forall_mem_cons] at hinit
    obtain ⟨⟨k', hts⟩, hinit⟩ := hinit
    have hrest := hts.append ((joins ht).append (ih hinit))
    have hseparate : TypeExpr.separate t (ts :: init ++ [last]) =
        ts ++ ([t] ++ TypeExpr.separate t (init ++ [last])) := by
      cases init <;> rfl
    rw [hseparate, List.map_cons, hts.deepest_eq, greatest, List.foldr_cons, Nat.max_assoc]
    rwa [Nat.zero_max] at hrest

end Spans

namespace Fills
variable {level k n k' : Nat} {ts us : List Token} {items : List (List Token)}

theorem nil (level : Nat) : Fills level [] 0 := by
  intro outer rest close hclose
  rw [List.nil_append, deepest_close hclose, Nat.zero_max]

theorem of_spans (h : Spans (level + 1) ts k n) : Fills level ts k := by
  intro outer rest close hclose
  rw [h, deepest_close hclose]

theorem cons (h : Spans (level + 1) ts k n) (h' : Fills level us k') :
    Fills level (ts ++ .comma :: us) (max k k') := by
  intro outer rest close hclose
  have hcomma (more : List Token) : deepest n (level :: outer) (.comma :: more) =
      deepest (level + 1) (level :: outer) more := by
    simp [deepest, Token.opens, Token.closes, Token.joins]
  rw [List.append_assoc, h, List.cons_append, hcomma, h' outer rest close hclose, Nat.max_assoc]

theorem entries (trailing : Bool) (h : ∀ ts ∈ items, ∃ k n, Spans (level + 1) ts k n) :
    Fills level (entryTokens items trailing)
      (greatest (items.map (deepest (level + 1) []))) := by
  induction items with
  | nil =>
    have hnil : entryTokens [] trailing = [] := by simp [entryTokens, commaEnd, TypeExpr.separate]
    rw [hnil]
    exact nil level
  | cons ts items ih =>
    rw [List.forall_mem_cons] at h
    obtain ⟨⟨k, n, hts⟩, hitems⟩ := h
    rw [List.map_cons, hts.deepest_eq, greatest, List.foldr_cons]
    cases items with
    | nil =>
      cases trailing with
      | false => simpa [entryTokens, commaEnd, TypeExpr.separate, greatest] using of_spans hts
      | true =>
        have hlast := cons hts (nil level)
        simpa [entryTokens, commaEnd, TypeExpr.separate, greatest] using hlast
    | cons us items =>
      have hentries : entryTokens (ts :: us :: items) trailing =
          ts ++ .comma :: entryTokens (us :: items) trailing := by
        simp [entryTokens, commaEnd, TypeExpr.separate]
      rw [hentries]
      exact cons hts (ih hitems)

end Fills

section Heads

@[simp]
theorem Token.stands_name (text : String) : (Token.name text).stands := rfl

@[simp]
theorem Token.stands_attributeName (text : String) : (Token.attributeName text).stands := rfl

@[simp]
theorem Token.stands_question : Token.question.stands := rfl

@[simp]
theorem Token.joins_colon : Token.colon.joins := rfl

@[simp]
theorem Token.joins_ellipsis : Token.ellipsis.joins := rfl

@[simp]
theorem Token.joins_dot : Token.dot.joins := rfl

/-- Tokens without brackets, commas and arrows. -/
def Plain (ts : List Token) : Prop := ∀ t ∈ ts, t.stands ∨ t.joins

theorem plain_single {t : Token} (h : t.stands) : Plain [t] :=
  List.forall_mem_singleton.2 (.inl h)

theorem plain_fieldHead (f : Field TypeExpr) : Plain (fieldHead f) := by
  cases h : f.optional <;> simp [Plain, fieldHead, optionalMark, h]

theorem plain_functionParamHead (p : FunctionParam TypeExpr) : Plain (functionParamHead p) := by
  cases h : p.variadic <;> simp [Plain, functionParamHead, h]

theorem plain_templateParamHead (p : TemplateParam TypeExpr) : Plain (templateParamHead p) := by
  cases h : p.required <;> cases hkind : p.kind <;>
    simp [Plain, templateParamHead, paramToken, optionalMark, h, hkind]

theorem plain_path (paths : List String) :
    Plain (paths.flatMap fun p => [.dot, .name p]) := by
  intro t ht
  obtain ⟨p, -, ht⟩ := List.mem_flatMap.1 ht
  simp only [List.mem_cons, List.not_mem_nil, or_false] at ht
  rcases ht with rfl | rfl
  · exact .inr rfl
  · exact .inl rfl

end Heads

/-- The tokens close their own brackets, and all types that they open if `closed` holds. -/
def Balanced (closed : Prop) (ts : List Token) : Prop :=
  ∀ n, ∃ k n', Spans n ts k n' ∧ (closed → n' = n)

section Balance
variable {c c' : Prop} {ts us : List Token} {t open' close : Token} {items init : List (List Token)}
  {trailing : Bool}

namespace Balanced

theorem mono (h : Balanced c ts) (hc : c' → c) : Balanced c' ts := fun n => by
  obtain ⟨k, n', hspans, hclosed⟩ := h n
  exact ⟨k, n', hspans, hclosed ∘ hc⟩

theorem spans (h : Balanced True ts) (n : Nat) : Spans n ts (deepest n [] ts) n := by
  obtain ⟨k, n', hspans, hclosed⟩ := h n
  rw [hspans.deepest_eq]
  exact hclosed trivial ▸ hspans

theorem append (h : Balanced True ts) (h' : Balanced c us) : Balanced c (ts ++ us) := fun n => by
  obtain ⟨k, n', hspans, hclosed⟩ := h' n
  exact ⟨_, n', (h.spans n).append hspans, hclosed⟩

theorem plain (h : Plain ts) : Balanced True ts := by
  induction ts with
  | nil => exact fun n => ⟨0, n, .nil n, fun _ => rfl⟩
  | cons t ts ih =>
    obtain ⟨ht, hts⟩ := List.forall_mem_cons.1 h
    rcases ht with ht | ht
    · exact append (fun n => ⟨n + 1, n, .stands ht, fun _ => rfl⟩) (ih hts)
    · exact append (fun n => ⟨0, n, .joins ht, fun _ => rfl⟩) (ih hts)

theorem arrow (h : Balanced c us) : Balanced False (.arrow :: us) := fun n => by
  obtain ⟨k, n', hspans, -⟩ := h (n + 1)
  exact ⟨_, n', (Spans.arrow n).append hspans, False.elim⟩

theorem separate (ht : t.joins) (hinit : ∀ ts ∈ init, Balanced True ts) (hlast : Balanced c ts) :
    Balanced c (TypeExpr.separate t (init ++ [ts])) := fun n => by
  obtain ⟨k, n', hspans, hclosed⟩ := hlast n
  exact ⟨_, n', .separate ht (fun ts hts => ⟨_, (hinit ts hts).spans n⟩) hspans, hclosed⟩

theorem fills (h : ∀ ts ∈ items, Balanced c ts) (n : Nat) :
    Fills n (entryTokens items trailing) (greatest (items.map (deepest (n + 1) []))) := by
  refine .entries trailing fun ts hts => ?_
  obtain ⟨k, n', hspans, -⟩ := h ts hts (n + 1)
  exact ⟨k, n', hspans⟩

theorem entries (hopen : open'.opens) (hclose : close.closes) (h : ∀ ts ∈ items, Balanced c ts) :
    Balanced True (open' :: (entryTokens items trailing ++ [close])) :=
  fun n => ⟨_, n, .bracket hopen hclose (fills h n), fun _ => rfl⟩

theorem signature (h : ∀ ts ∈ items, Balanced c ts) (hresult : Balanced c' us) :
    Balanced False (.openParen :: (entryTokens items trailing ++ .closeParen :: .arrow :: us)) := by
  have hlist : Balanced True (.openParen :: (entryTokens items trailing ++ [.closeParen])) :=
    entries rfl rfl h
  have hall := hlist.append hresult.arrow
  simpa using hall

end Balanced

theorem deepest_append (h : Balanced True ts) (n : Nat) (us : List Token) :
    deepest n [] (ts ++ us) = max (deepest n [] ts) (deepest n [] us) :=
  h.spans n [] us

theorem deepest_plain_le (h : Plain ts) (n : Nat) : deepest n [] ts ≤ n + 1 := by
  induction ts with
  | nil => exact Nat.zero_le _
  | cons t ts ih =>
    obtain ⟨ht, hts⟩ := List.forall_mem_cons.1 h
    rcases ht with ht | ht
    · rw [← List.singleton_append, Spans.stands ht]
      exact Nat.max_le.2 ⟨Nat.le_refl _, ih hts⟩
    · rw [← List.singleton_append, Spans.joins ht]
      exact Nat.max_le.2 ⟨Nat.zero_le _, ih hts⟩

theorem deepest_separate (ht : t.joins) (hinit : ∀ ts ∈ init, Balanced True ts)
    (hlast : Balanced c ts) (n : Nat) : deepest n [] (separate t (init ++ [ts])) =
      max (greatest (init.map (deepest n []))) (deepest n [] ts) := by
  obtain ⟨k, n', hspans, -⟩ := hlast n
  rw [hspans.deepest_eq]
  exact (Spans.separate ht (fun ts hts => ⟨_, (hinit ts hts).spans n⟩) hspans).deepest_eq

theorem deepest_entries (hopen : open'.opens) (hclose : close.closes)
    (h : ∀ ts ∈ items, Balanced c ts) (n : Nat) :
    deepest n [] (open' :: (entryTokens items trailing ++ [close])) =
      max (n + 1) (greatest (items.map (deepest (n + 1) []))) :=
  (Spans.bracket hopen hclose (Balanced.fills h n)).deepest_eq

theorem deepest_signature (h : ∀ ts ∈ items, Balanced c ts) (n : Nat) :
    deepest n [] (.openParen :: (entryTokens items trailing ++ .closeParen :: .arrow :: us)) =
      max (max (n + 1) (greatest (items.map (deepest (n + 1) [])))) (deepest (n + 1) [] us) := by
  have hlist : Balanced True (.openParen :: (entryTokens items trailing ++ [.closeParen])) :=
    .entries rfl rfl h
  have harrow : deepest n [] (.arrow :: us) = deepest (n + 1) [] us := by
    have hspans := Spans.arrow n [] us
    rwa [Nat.zero_max] at hspans
  have hall := deepest_append hlist n (.arrow :: us)
  rw [deepest_entries rfl rfl h, harrow] at hall
  simpa using hall

end Balance

def Level.slack : Level → Nat
  | .type => 0
  | _ => 1

section Spelling
variable {d n : Nat} {level : Level} {b : Ending} {ts : List Token} {e : TypeExpr}

theorem Spells.balanced (h : Spells d level b ts e) :
    Balanced (level ≠ .type ∧ b = .closed) ts := by
  have part {head us : List Token} (h : Balanced (Level.type ≠ .type ∧ Ending.closed = .closed) us)
      (hhead : Plain head) : Balanced False (head ++ us) :=
    (Balanced.plain hhead).append (h.mono False.elim)
  induction h with
  | single _ ih => exact ih.mono fun hc => absurd rfl hc.1
  | union _ _ _ _ _ ihinit ih =>
    refine .separate rfl (List.forall_mem_map.2 fun p hp => ?_) (ih.mono fun hc => absurd rfl hc.1)
    exact (ihinit p hp).mono fun _ => ⟨by decide, rfl⟩
  | operand _ ih => exact ih.mono fun hc => ⟨by decide, hc.2⟩
  | intersection _ _ _ _ _ ihinit ih =>
    refine .separate rfl (List.forall_mem_map.2 fun p hp => ?_)
      (ih.mono fun hc => ⟨by decide, hc.2⟩)
    exact (ihinit p hp).mono fun _ => ⟨by decide, rfl⟩
  | plain _ ih => exact ih.mono fun hc => ⟨by decide, hc.2⟩
  | access paths _ _ _ ih =>
    have hbase := ih.mono fun _ : True => ⟨by decide, rfl⟩
    exact (hbase.append (.plain (plain_path paths))).mono fun _ => trivial
  | unknown | quoted | number | keyword | named =>
    exact (Balanced.plain (plain_single rfl)).mono fun _ => trivial
  | @generic _ name _ _ arguments _ ih =>
    have hname : Balanced True [.name name] := .plain (plain_single rfl)
    have hlist : Balanced True (.less :: (entryTokens (arguments.map (·.1)) false ++ [.greater])) :=
      .entries rfl rfl (List.forall_mem_map.2 fun p hp => (ih p hp).mono False.elim)
    rw [entryTokens_false] at hlist
    exact (hname.append hlist).mono fun _ => trivial
  | @parens _ ts _ _ ih =>
    have hparens : Balanced True (.openParen :: (entryTokens [ts] false ++ [.closeParen])) :=
      .entries rfl rfl (List.forall_mem_singleton.2 (ih.mono False.elim))
    rw [entryTokens_false] at hparens
    exact hparens.mono fun _ => trivial
  | record _ fields _ _ _ ih =>
    have hitems := List.forall_mem_map.2 fun p hp => part (ih p hp) (plain_fieldHead p.2)
    exact (Balanced.entries rfl rfl hitems).mono fun _ => trivial
  | function _ params _ _ _ _ ih ihresult =>
    have hitems := List.forall_mem_map.2 fun p hp => part (ih p hp) (plain_functionParamHead p.2)
    exact (Balanced.signature hitems ihresult).mono fun hc => nomatch hc.2
  | template _ params _ _ _ _ ih ihresult =>
    have hkeyword : Balanced True [.name "template"] := .plain (plain_single rfl)
    have hitems := List.forall_mem_map.2 fun p hp => part (ih p hp) (plain_templateParamHead p.2)
    exact (hkeyword.append (.signature hitems ihresult)).mono fun hc => nomatch hc.2

theorem Spells.pos (h : Spells d .type b ts e) : 1 ≤ d := by
  cases h <;> exact Nat.le_add_left ..

theorem Spells.balanced_closed (h : Spells d level .closed ts e) (hlevel : level ≠ .type) :
    Balanced True ts :=
  h.balanced.mono fun _ => ⟨hlevel, rfl⟩

theorem Spells.balanced_type (h : Spells d .type b ts e) : Balanced False ts :=
  h.balanced.mono False.elim

theorem deepest_part_le {head us : List Token} {m : Nat} (hhead : Plain head) (hm : n + 1 ≤ m)
    (h : deepest n [] us ≤ m) : deepest n [] (head ++ us) ≤ m := by
  rw [deepest_append (.plain hhead)]
  exact Nat.max_le.2 ⟨Nat.le_trans (deepest_plain_le hhead n) hm, h⟩

theorem greatest_map_le {α : Type} {items : List α} {tokens : α → List Token} {m : Nat}
    (h : ∀ i ∈ items, deepest n [] (tokens i) ≤ m) :
    greatest ((items.map tokens).map (deepest n [])) ≤ m := by
  rw [greatest_le_iff, List.map_map]
  exact List.forall_mem_map.2 h

/-- A type in brackets or behind an arrow is read within one level less. -/
theorem deepest_inner_le {us : List Token}
    (h : deepest (n + 1) [] us ≤ n + 1 + d + Level.type.slack) :
    deepest (n + 1) [] us ≤ n + d + 1 := by
  simp only [Level.slack] at h
  omega

section Items
variable {γ : Type} {head : γ → List Token} {type : γ → TypeExpr} {parts : List (List Token × γ)}

theorem balanced_items (hhead : ∀ g, Plain (head g))
    (h : ∀ p ∈ parts, Spells d .type .closed p.1 (type p.2)) :
    ∀ ts ∈ parts.map fun p => head p.2 ++ p.1, Balanced False ts :=
  List.forall_mem_map.2 fun p hp => (Balanced.plain (hhead p.2)).append (h p hp).balanced_type

theorem deepest_items_le (hhead : ∀ g, Plain (head g))
    (h : ∀ p ∈ parts, Spells d .type .closed p.1 (type p.2))
    (hle : ∀ p ∈ parts, deepest (n + 1) [] p.1 ≤ n + 1 + d + Level.type.slack) :
    greatest ((parts.map fun p => head p.2 ++ p.1).map (deepest (n + 1) [])) ≤ n + d + 1 := by
  refine greatest_map_le fun p hp => ?_
  have hpos := (h p hp).pos
  exact deepest_part_le (hhead p.2) (by omega) (deepest_inner_le (hle p hp))

end Items

theorem deepest_generic_le {name : String} {arguments : List (List Token × TypeExpr)}
    (h : ∀ p ∈ arguments, Balanced False p.1)
    (hle : ∀ p ∈ arguments, deepest (n + 1) [] p.1 ≤ n + 1 + d + Level.type.slack) :
    deepest n [] (.name name :: .less :: (separate .comma (arguments.map (·.1)) ++ [.greater])) ≤
      n + d + 1 := by
  have hlist : deepest n [] (.less :: (entryTokens (arguments.map (·.1)) false ++ [.greater])) =
      _ := deepest_entries rfl rfl (List.forall_mem_map.2 h) n
  rw [entryTokens_false] at hlist
  have hone : n + 1 ≤ n + d + 1 := by omega
  refine deepest_part_le (plain_single (Token.stands_name name)) hone ?_
  rw [hlist]
  exact Nat.max_le.2 ⟨hone, greatest_map_le fun p hp => deepest_inner_le (hle p hp)⟩

theorem deepest_parens_le (h : Balanced False ts)
    (hle : deepest (n + 1) [] ts ≤ n + 1 + d + Level.type.slack) :
    deepest n [] (.openParen :: (ts ++ [.closeParen])) ≤ n + d + 1 := by
  have hparens : deepest n [] (.openParen :: (entryTokens [ts] false ++ [.closeParen])) = _ :=
    deepest_entries rfl rfl (List.forall_mem_singleton.2 h) n
  rw [entryTokens_false] at hparens
  have hone : n + 1 ≤ n + d + 1 := by omega
  refine Nat.le_trans (Nat.le_of_eq hparens) (Nat.max_le.2 ⟨hone, ?_⟩)
  exact greatest_le_iff.2 (List.forall_mem_singleton.2 (deepest_inner_le hle))

/-- The tokens nest no deeper than the depth at which they are read. -/
theorem Spells.deepest_le (h : Spells d level b ts e) (n : Nat) :
    deepest n [] ts ≤ n + d + level.slack := by
  induction h generalizing n with
  | single _ ih => exact ih n
  | union _ _ _ hinit hlast ihinit ih =>
    rw [deepest_separate rfl (List.forall_mem_map.2 fun p hp =>
      (hinit p hp).balanced_closed (by decide)) hlast.balanced]
    exact Nat.max_le.2 ⟨greatest_map_le fun p hp => ihinit p hp n, ih n⟩
  | operand _ ih => exact ih n
  | intersection _ _ _ hinit hlast ihinit ih =>
    rw [deepest_separate rfl (List.forall_mem_map.2 fun p hp =>
      (hinit p hp).balanced_closed (by decide)) hlast.balanced]
    exact Nat.max_le.2 ⟨greatest_map_le fun p hp => ihinit p hp n, ih n⟩
  | plain _ ih => exact ih n
  | @access d _ _ _ paths _ h _ ih =>
    rw [deepest_append (h.balanced_closed (by decide))]
    have hpath := deepest_plain_le (plain_path paths) n
    exact Nat.max_le.2 ⟨ih n, Nat.le_trans hpath (by simp only [Level.slack]; omega)⟩
  | @unknown d | @quoted d | @number d | @keyword d | @named d =>
    refine Nat.le_trans (deepest_plain_le (plain_single rfl) n) ?_
    simp only [Level.slack]
    omega
  | generic _ _ _ harguments ih =>
    exact deepest_generic_le (fun p hp => (harguments p hp).balanced_type) fun p hp =>
      ih p hp (n + 1)
  | parens h ih => exact deepest_parens_le h.balanced_type (ih (n + 1))
  | @record d _ fields trailing _ hfields ih =>
    rw [deepest_entries rfl rfl (balanced_items plain_fieldHead hfields)]
    have hone : n + 1 ≤ n + d + 1 := by omega
    exact Nat.max_le.2 ⟨hone, deepest_items_le plain_fieldHead hfields fun p hp => ih p hp (n + 1)⟩
  | @function d ts _ _ params trailing _ hparams hresult ih ihresult =>
    rw [deepest_signature (balanced_items plain_functionParamHead hparams)]
    have hone : n + 1 ≤ n + d + 1 := by omega
    have hitems := deepest_items_le plain_functionParamHead hparams fun p hp => ih p hp (n + 1)
    exact Nat.max_le.2 ⟨Nat.max_le.2 ⟨hone, hitems⟩, deepest_inner_le (ihresult (n + 1))⟩
  | @template d ts _ _ params trailing _ hparams hresult ih ihresult =>
    have hone : n + 1 ≤ n + d + 1 := by omega
    refine deepest_part_le (plain_single (Token.stands_name "template")) hone ?_
    rw [deepest_signature (balanced_items plain_templateParamHead hparams)]
    have hitems := deepest_items_le plain_templateParamHead hparams fun p hp => ih p hp (n + 1)
    exact Nat.max_le.2 ⟨Nat.max_le.2 ⟨hone, hitems⟩, deepest_inner_le (ihresult (n + 1))⟩

end Spelling

end TemplateCheck.TypeExpr
