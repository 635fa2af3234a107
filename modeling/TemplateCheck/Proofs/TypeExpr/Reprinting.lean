import TemplateCheck.Proofs.TypeExpr.Depth
import TemplateCheck.Proofs.TypeExpr.Parsed
import TemplateCheck.Proofs.TypeExpr.RoundTrip
import TemplateCheck.Proofs.TypeExpr.Soundness

/-! Which of the printed expressions can be read. The printer writes parentheses that the source
need not have, and each pair of them is a level of nesting. -/

namespace TemplateCheck.TypeExpr

structure Nests (closed : Prop) (ts : List Token) (size : Nat) : Prop where
  balanced : Balanced closed ts
  deep : ∀ n, n + size ≤ deepest n [] ts

namespace Nests
variable {c c' : Prop} {ts us : List Token} {size : Nat} {t open' close : Token}

theorem mono (h : Nests c ts size) (hc : c' → c) : Nests c' ts size := ⟨h.balanced.mono hc, h.deep⟩

theorem stands (ht : t.stands) : Nests True [t] 1 where
  balanced := .plain (plain_single ht)
  deep n := by
    have hspans : Spans n [t] (n + 1) n := .stands ht
    rw [hspans.deepest_eq]

theorem prepend {head : List Token} (hhead : Plain head) (h : Nests c ts size) :
    Nests c (head ++ ts) size where
  balanced := (Balanced.plain hhead).append h.balanced
  deep n := by
    rw [deepest_append (.plain hhead)]
    exact Nat.le_trans (h.deep n) (Nat.le_max_right _ _)

theorem append_plain (h : Nests True ts size) (hus : Plain us) : Nests True (ts ++ us) size where
  balanced := h.balanced.append (.plain hus)
  deep n := by
    rw [deepest_append h.balanced]
    exact Nat.le_trans (h.deep n) (Nat.le_max_left _ _)

section Items
variable {γ : Type} {items : List γ} {tokens : γ → List Token} {sizes : γ → Nat}

theorem balanced_items (h : ∀ i ∈ items, Nests c (tokens i) (sizes i)) :
    ∀ ts ∈ items.map tokens, Balanced c ts :=
  List.forall_mem_map.2 fun i hi => (h i hi).balanced

theorem le_greatest (h : ∀ i ∈ items, Nests c (tokens i) (sizes i)) (n : Nat) :
    ∀ i ∈ items, n + sizes i ≤ greatest ((items.map tokens).map (deepest n [])) := by
  have hle := greatest_le_iff.1 (Nat.le_refl (greatest ((items.map tokens).map (deepest n []))))
  intro i hi
  have hmem : deepest n [] (tokens i) ∈ (items.map tokens).map (deepest n []) :=
    List.mem_map_of_mem (List.mem_map_of_mem hi)
  exact Nat.le_trans ((h i hi).deep n) (hle _ hmem)

theorem size_le_greatest (h : ∀ i ∈ items, Nests c (tokens i) (sizes i))
    (hsize : ∀ n, size ≤ n ↔ ∀ i ∈ items, sizes i ≤ n) (n : Nat) :
    size ≤ greatest ((items.map tokens).map (deepest n [])) - n :=
  (hsize _).2 fun i hi => Nat.le_sub_of_add_le' (le_greatest h n i hi)

theorem entries (hopen : open'.opens) (hclose : close.closes)
    (h : ∀ i ∈ items, Nests c (tokens i) (sizes i))
    (hsize : ∀ n, size ≤ n ↔ ∀ i ∈ items, sizes i ≤ n) :
    Nests True (open' :: (entryTokens (items.map tokens) false ++ [close])) (size + 1) where
  balanced := .entries hopen hclose (balanced_items h)
  deep n := by
    rw [deepest_entries hopen hclose (balanced_items h)]
    have hsizes := size_le_greatest h hsize (n + 1)
    omega

theorem parens (h : Nests c ts size) :
    Nests True (.openParen :: (ts ++ [.closeParen])) (size + 1) := by
  have hitems : ∀ i ∈ [()], Nests c ts size := fun _ _ => h
  have hall : Nests True (.openParen :: (entryTokens ([()].map fun _ => ts) false ++ [.closeParen]))
      (size + 1) := .entries rfl rfl hitems (by simp)
  rwa [entryTokens_false] at hall

theorem signature {result : Nat} (h : ∀ i ∈ items, Nests c (tokens i) (sizes i))
    (hsize : ∀ n, size ≤ n ↔ ∀ i ∈ items, sizes i ≤ n) (hresult : Nests c' us result) :
    Nests False (.openParen :: (entryTokens (items.map tokens) false ++
      .closeParen :: .arrow :: us)) (max size result + 1) where
  balanced := .signature (balanced_items h) hresult.balanced
  deep n := by
    rw [deepest_signature (balanced_items h)]
    have hsizes := size_le_greatest h hsize (n + 1)
    have hdeep := hresult.deep (n + 1)
    omega

theorem separate (ht : t.joins) (htwo : 2 ≤ items.length)
    (h : ∀ i ∈ items, Nests True (tokens i) (sizes i))
    (hsize : ∀ n, size ≤ n ↔ ∀ i ∈ items, sizes i ≤ n) :
    Nests True (TypeExpr.separate t (items.map tokens)) size := by
  obtain ⟨init, last, rfl, -⟩ := exists_init htwo
  have hinit := fun i hi => h i (List.mem_append_left _ hi)
  have hlast := h last (List.mem_append_right _ (List.mem_singleton_self _))
  rw [List.map_append, List.map_singleton]
  refine ⟨.separate ht (balanced_items hinit) hlast.balanced, fun n => ?_⟩
  rw [deepest_separate ht (balanced_items hinit) hlast.balanced]
  have hle := le_greatest hinit n
  have hdeep := hlast.deep n
  generalize greatest ((init.map tokens).map (deepest n [])) = k at hle
  generalize deepest n [] (tokens last) = k' at hdeep
  have hsizes : size ≤ max k k' - n := by
    refine (hsize _).2 fun i hi => ?_
    rcases List.mem_append.1 hi with hi | hi
    · have hi := hle i hi
      omega
    · rw [List.mem_singleton.1 hi]
      omega
  omega

end Items
end Nests

def Deep (F : List Char → Prop) (closed : Prop) (text : String) (size : Nat) : Prop :=
  ∃ ts, Written F text ts ∧ Nests closed ts size

namespace Deep
variable {F : List Char → Prop} {c : Prop} {text : String} {size : Nat} {e m : TypeExpr}

theorem ends (h : Deep Free c text size) : Deep Ends c text size := by
  obtain ⟨ts, hwritten, hnests⟩ := h
  exact ⟨ts, hwritten.mono fun _ _ => trivial, hnests⟩

theorem opened (h : Deep F True text size) : Deep F False text size := by
  obtain ⟨ts, hwritten, hnests⟩ := h
  exact ⟨ts, hwritten, hnests.mono False.elim⟩

theorem parens (h : Deep Ends c text size) : Deep Free True ("(" ++ text ++ ")") (size + 1) := by
  obtain ⟨ts, hwritten, hnests⟩ := h
  exact ⟨_, hwritten.parens, hnests.parens⟩

theorem access {path : List String} (hpath : path ≠ []) (hnames : ∀ p ∈ path, IsPlainName p)
    (h : Deep Free True (memberText .base e) size) (hm : Accessed e path m) :
    Deep Ends True m.print size := by
  obtain ⟨ts, hwritten, hnests⟩ := h
  exact ⟨_, hwritten.access hpath hnames hm, hnests.append_plain (by simp [Plain])⟩

end Deep

structure Nested (e : TypeExpr) : Prop where
  argument : Deep Ends False e.print (nesting e)
  member : ∀ position ∈ [Position.unionMember, .intersectionMember],
    Deep Ends True (memberText position e) (nesting e + (needsParens position e).toNat)
  base : ∀ path m, path ≠ [] → (∀ p ∈ path, IsPlainName p) → Accessed e path m →
    Deep Ends True m.print (nesting m)

namespace Nested
variable {e : TypeExpr}

theorem member_parens {c : Prop} {position : Position} (h : Deep Ends c e.print (nesting e))
    (hparens : needsParens position e) :
    Deep Free True (memberText position e) (nesting e + (needsParens position e).toNat) := by
  rw [memberText_parens hparens, hparens]
  exact h.parens

theorem of_base (h : Deep Ends True e.print (nesting e))
    (base : needsParens .base e = false → ∀ path m, path ≠ [] → (∀ p ∈ path, IsPlainName p) →
      Accessed e path m → Deep Ends True m.print (nesting m)) : Nested e where
  argument := h.opened
  member position _ := by
    cases hparens : needsParens position e with
    | true =>
      have hmember := (member_parens h hparens).ends
      rwa [hparens] at hmember
    | false =>
      rw [memberText_bare hparens]
      exact h
  base path m hpath hnames hm := by
    cases hparens : needsParens .base e with
    | true =>
      rw [hm.nesting hpath]
      exact (member_parens h hparens).access hpath hnames hm
    | false => exact base hparens path m hpath hnames hm

theorem of_primary (h : Deep Ends True e.print (nesting e))
    (hfree : needsParens .base e = false → Deep Free True e.print (nesting e)) : Nested e := by
  refine of_base h fun hbare path m hpath hnames hm => ?_
  have hbase := hfree hbare
  rw [← memberText_bare hbare] at hbase
  rw [hm.nesting hpath, hbare]
  exact hbase.access hpath hnames hm

theorem of_arrow (h : Deep Ends False e.print (nesting e))
    (hparens : ∀ position, position ≠ .argument → needsParens position e) : Nested e where
  argument := h
  member position hposition := by
    refine (member_parens h (hparens position ?_)).ends
    rintro rfl
    revert hposition
    decide
  base path m hpath hnames hm := by
    rw [hm.nesting hpath]
    exact (member_parens h (hparens .base (by decide))).access hpath hnames hm

theorem unknown (l : Location) : Nested (.named l "?") := by
  have hquestion : Written Free "?" [.question] := .symbol '?' (by decide) rfl
  exact of_primary ⟨_, hquestion.mono fun _ _ => trivial, .stands rfl⟩ Bool.noConfusion

theorem named {name : String} (l : Location) (h : IsTypeName name) : Nested (.named l name) :=
  of_primary ⟨_, .name h.1, .stands rfl⟩ Bool.noConfusion

theorem literal {value : Literal} (l : Location) (h : value.WellFormed) :
    Nested (.literal l value) := by
  have keyword {value : Literal} {name : String} (hname : IsPlainName name)
      (hprint : value.print = name) (hparens : needsParens .base (.literal l value)) :
      Nested (.literal l value) := by
    refine of_primary ⟨[.name name], ?_, .stands rfl⟩ fun hbare => ?_
    · rw [print, hprint]
      exact .name hname.dotted
    · rw [hparens] at hbare
      cases hbare
  cases value with
  | null => exact keyword (by decide) rfl rfl
  | undefined => exact keyword (by decide) rfl rfl
  | string value =>
    have hquoted : Deep Free True (TypeExpr.literal l (.string value)).print 1 :=
      ⟨[.quoted value], .quoted value, .stands rfl⟩
    exact of_primary hquoted.ends fun _ => hquoted
  | other text =>
    rcases h with rfl | rfl | hnumber
    · exact keyword (by decide) rfl rfl
    · exact keyword (by decide) rfl rfl
    · exact of_primary ⟨[.number text], .number hnumber, .stands rfl⟩ Bool.noConfusion

theorem exists_tokens {γ : Type} {typeOf : γ → TypeExpr} {parts : List γ}
    (h : ∀ p ∈ parts, Nested (typeOf p)) :
    ∃ items : List (List Token × γ), items.map (·.2) = parts ∧ (∀ i ∈ items, i.2 ∈ parts) ∧
      (∀ i ∈ items, Written Ends (typeOf i.2).print i.1) ∧
      ∀ i ∈ items, Nests False i.1 (nesting (typeOf i.2)) := by
  obtain ⟨items, rfl, hitems⟩ := exists_items fun p hp => (h p hp).argument
  exact ⟨items, rfl, fun i hi => List.mem_map_of_mem hi, fun i hi => (hitems i hi).1,
    fun i hi => (hitems i hi).2⟩

theorem generic {name : String} {args : List TypeExpr} (l : Location) (h : IsTypeName name)
    (hargs : ∀ a ∈ args, Nested a) : Nested (.generic l name args) := by
  obtain ⟨items, rfl, -, hwritten, hnests⟩ := exists_tokens hargs
  have hsize (n : Nat) : nestingAll .argument (items.map (·.2)) ≤ n ↔
      ∀ i ∈ items, nesting i.2 ≤ n := by
    rw [nestingAll_le_iff, List.forall_mem_map]
    rfl
  have hlist : Nests True (.less :: (entryTokens (items.map (·.1)) false ++ [.greater])) _ :=
    .entries rfl rfl hnests hsize
  have hall := hlist.prepend (plain_single (Token.stands_name name))
  have hgeneric : Deep Free True (TypeExpr.generic l name (items.map (·.2))).print
      (nesting (.generic l name (items.map (·.2)))) := by
    rw [entryTokens_false] at hall
    rw [print, printAll_eq_map, List.map_map, nesting]
    exact ⟨_, .generic h.1 hwritten, hall⟩
  exact of_primary hgeneric.ends fun _ => hgeneric

theorem record {fields : List (Field TypeExpr)} (l : Location)
    (names : ∀ f ∈ fields, IsPlainName f.name) (hfields : ∀ f ∈ fields, Nested f.type) :
    Nested (.record l fields) := by
  obtain ⟨items, rfl, hmem, hwritten, hnests⟩ := exists_tokens hfields
  have hsize (n : Nat) : nestingFields (items.map (·.2)) ≤ n ↔
      ∀ i ∈ items, nesting i.2.type ≤ n := by
    rw [nestingFields_le_iff, List.forall_mem_map]
  have hrecord : Deep Free True (TypeExpr.record l (items.map (·.2))).print
      (nesting (.record l (items.map (·.2)))) := by
    rw [print, printFields_eq_map, List.map_map, nesting]
    refine ⟨_, .record fun i hi => .field (names i.2 (hmem i hi)) (hwritten i hi), ?_⟩
    exact .entries rfl rfl (fun i hi => (hnests i hi).prepend (plain_fieldHead i.2)) hsize
  exact of_primary hrecord.ends fun _ => hrecord

theorem function {params : List (FunctionParam TypeExpr)} {result : TypeExpr} (l : Location)
    (names : ∀ p ∈ params, p.Spelled) (hparams : ∀ p ∈ params, Nested p.type)
    (hresult : Nested result) : Nested (.function l params result) := by
  obtain ⟨items, rfl, hmem, hwritten, hnests⟩ := exists_tokens hparams
  obtain ⟨ts, htext, hts⟩ := hresult.argument
  have hsize (n : Nat) : nestingFunctionParams (items.map (·.2)) ≤ n ↔
      ∀ i ∈ items, nesting i.2.type ≤ n := by
    rw [nestingFunctionParams_le_iff, List.forall_mem_map]
  refine of_arrow ?_ fun position hposition => ?_
  · rw [print, printFunctionParams_eq_map, List.map_map, nesting]
    refine ⟨_, .function (fun i hi =>
      .functionParam (names i.2 (hmem i hi)).2 (hwritten i hi)) htext, ?_⟩
    exact .signature (fun i hi => (hnests i hi).prepend (plain_functionParamHead i.2)) hsize hts
  · cases position <;> first | rfl | exact absurd rfl hposition

theorem template {params : List (TemplateParam TypeExpr)} {result : TypeExpr} (l : Location)
    (names : ∀ p ∈ params, p.Spelled) (hparams : ∀ p ∈ params, Nested p.type)
    (hresult : Nested result) : Nested (.template l params result) := by
  obtain ⟨items, rfl, hmem, hwritten, hnests⟩ := exists_tokens hparams
  obtain ⟨ts, htext, hts⟩ := hresult.argument
  have hsize (n : Nat) : nestingTemplateParams (items.map (·.2)) ≤ n ↔
      ∀ i ∈ items, nesting i.2.type ≤ n := by
    rw [nestingTemplateParams_le_iff, List.forall_mem_map]
  refine of_arrow ?_ fun position hposition => ?_
  · rw [print, printTemplateParams_eq_map, List.map_map, nesting]
    refine ⟨_, .template (fun i hi =>
      .templateParam (names i.2 (hmem i hi)) (hwritten i hi)) htext, ?_⟩
    have hsignature := Nests.signature
      (fun i hi => (hnests i hi).prepend (plain_templateParamHead i.2)) hsize hts
    exact hsignature.prepend (plain_single (Token.stands_name "template"))
  · cases position <;> first | rfl | exact absurd rfl hposition

theorem members (position : Position) {members : List TypeExpr} {t : Token} (ht : t.joins)
    (hposition : position ∈ [Position.unionMember, .intersectionMember]) (h : 2 ≤ members.length)
    (hmembers : ∀ e ∈ members, Nested e) :
    ∃ items : List (List Token × TypeExpr), items.map (·.2) = members ∧
      (∀ i ∈ items, Written Ends (memberText position i.2) i.1) ∧
      Nests True (separate t (items.map (·.1))) (nestingAll position members) := by
  obtain ⟨items, rfl, hitems⟩ := exists_items fun e he => (hmembers e he).member position hposition
  refine ⟨items, rfl, fun i hi => (hitems i hi).1, ?_⟩
  refine .separate ht (by simpa using h) (fun i hi => (hitems i hi).2) fun n => ?_
  rw [nestingAll_le_iff, List.forall_mem_map]

theorem union {members : List TypeExpr} (l : Location) (h : 2 ≤ members.length)
    (hmembers : ∀ e ∈ members, Nested e) : Nested (.union l members) := by
  obtain ⟨items, rfl, hwritten, hnests⟩ :=
    Nested.members .unionMember (t := .bar) rfl (by decide) h hmembers
  refine of_base ?_ Bool.noConfusion
  rw [print, printAll_eq_map, List.map_map, nesting]
  exact ⟨_, .union hwritten, hnests⟩

theorem intersection {members : List TypeExpr} (l : Location) (h : 2 ≤ members.length)
    (hmembers : ∀ e ∈ members, Nested e) : Nested (.intersection l members) := by
  obtain ⟨items, rfl, hwritten, hnests⟩ :=
    Nested.members .intersectionMember (t := .ampersand) rfl (by decide) h hmembers
  refine of_base ?_ Bool.noConfusion
  rw [print, printAll_eq_map, List.map_map, nesting]
  exact ⟨_, .intersection hwritten, hnests⟩

theorem indexed {base : TypeExpr} {property : String} (l : Location) (h : IsPlainName property)
    (hbase : Nested base) : Nested (.indexed l base property) := by
  have hpath : ∀ p ∈ [property], IsPlainName p := List.forall_mem_singleton.2 h
  refine of_base (hbase.base [property] _ (List.cons_ne_nil _ _) hpath (.step l (.done _)))
    fun _ path m hpath hnames hm => ?_
  exact hbase.base (property :: path) m (List.cons_ne_nil _ _)
    (List.forall_mem_cons.2 ⟨h, hnames⟩) (.step l hm)

end Nested

theorem WellFormed.nested {e : TypeExpr} (h : WellFormed e) : Nested e := by
  induction h with
  | unknown l => exact .unknown l
  | named l h => exact .named l h
  | generic l h _ ih => exact .generic l h ih
  | union l h _ ih => exact .union l h ih
  | intersection l h _ ih => exact .intersection l h ih
  | record l names _ ih => exact .record l names ih
  | template l names _ _ ih ihr => exact .template l names ih ihr
  | function l names _ _ ih ihr => exact .function l names ih ihr
  | indexed l h _ ih => exact .indexed l h ih
  | literal l h => exact .literal l h

section Accepted
variable {d : Nat} {level : Level} {b : Ending} {ts : List Token} {text : String}
  {file : Option String} {e m : TypeExpr}

theorem spells_of_parse (h : parse text file = .ok m) : ∃ placed, scan text.toList = .ok placed ∧
    Spells nestingLimit .type .closed (placed.map (·.token)) m := by
  rw [parse] at h
  cases hscan : scan text.toList with
  | error fault =>
    rw [hscan] at h
    cases h
  | ok placed =>
    rw [hscan] at h
    exact ⟨placed, rfl, spells_of_ofTokens h⟩

theorem WellFormed.nesting_le (h : WellFormed e) (hm : parse e.print file = .ok m) :
    nesting e ≤ nestingLimit := by
  obtain ⟨ts, hwritten, hnests⟩ := h.nested.argument
  obtain ⟨placed, hscan, rfl⟩ := hwritten.exists_scan
  obtain ⟨placed', hscan', hspells⟩ := spells_of_parse hm
  obtain rfl : placed = placed' := Except.ok.inj (hscan.symm.trans hscan')
  have hdeep := hnests.deep 0
  have hread := hspells.deepest_le 0
  simp only [Level.slack] at hread
  omega

def Level.position : Level → Position
  | .type => .argument
  | .inter => .unionMember
  | .post => .intersectionMember
  | .primary => .base

theorem toNat_needsParens_le (e : TypeExpr) :
    (needsParens .unionMember e).toNat ≤ (needsParens .intersectionMember e).toNat ∧
      (needsParens .intersectionMember e).toNat ≤ (needsParens .base e).toNat := by
  cases e with
  | literal l value => cases value <;> simp [needsParens]
  | _ => simp [needsParens]

theorem flatMap_segments_ne_nil {paths : List String} (h : paths ≠ []) :
    paths.flatMap Text.segments ≠ [] := by
  have hsplit (cs : List Char) : Text.splitAtChar '.' cs ≠ [] := by
    cases cs with
    | nil => exact List.cons_ne_nil _ _
    | cons c cs =>
      rw [Text.splitAtChar]
      split
      · exact List.cons_ne_nil _ _
      · split <;> exact List.cons_ne_nil _ _
  obtain ⟨p, paths, rfl⟩ := List.exists_cons_of_ne_nil h
  simp [Text.segments, hsplit]

/-- Printing doubles the depth at most: a type that is read is given one pair of parentheses at
most. -/
theorem Spells.nesting_le (h : Spells d level b ts e) :
    nesting e + (needsParens level.position e).toNat ≤ 2 * (d + level.slack) := by
  have primary {d : Nat} {e : TypeExpr} (h : nesting e ≤ 2 * d + 1) :
      nesting e + (needsParens Level.primary.position e).toNat ≤ 2 * (d + Level.primary.slack) := by
    have hparens : (needsParens .base e).toNat ≤ 1 := Bool.toNat_le _
    simp only [Level.position, Level.slack]
    omega
  have inner {d : Nat} {e : TypeExpr}
      (h : nesting e + (needsParens Level.type.position e).toNat ≤ 2 * (d + Level.type.slack)) :
      nesting e ≤ 2 * d := Nat.le_of_add_right_le h
  induction h with
  | @single d _ _ e _ ih =>
    have hmember : nesting e + (needsParens .unionMember e).toNat ≤ 2 * (d + 1) := ih
    exact Nat.le_trans (Nat.le_add_right _ _) hmember
  | @union d _ _ e l init _ _ _ ihinit ih =>
    have hmembers : nestingAll .unionMember (init.map (·.2) ++ [e]) ≤ 2 * (d + 1) := by
      rw [nestingAll_le_iff, List.forall_mem_append, List.forall_mem_map, List.forall_mem_singleton]
      exact ⟨ihinit, ih⟩
    exact hmembers
  | @operand _ _ _ e _ ih =>
    exact Nat.le_trans (Nat.add_le_add_left (toNat_needsParens_le e).1 _) ih
  | @intersection d _ _ e l init _ _ _ ihinit ih =>
    have hmembers : nestingAll .intersectionMember (init.map (·.2) ++ [e]) ≤ 2 * (d + 1) := by
      rw [nestingAll_le_iff, List.forall_mem_append, List.forall_mem_map, List.forall_mem_singleton]
      exact ⟨ihinit, ih⟩
    exact hmembers
  | @plain _ _ _ e _ ih =>
    exact Nat.le_trans (Nat.add_le_add_left (toNat_needsParens_le e).2 _) ih
  | access paths nonempty _ hm ih =>
    have hpath := flatMap_segments_ne_nil nonempty
    rw [hm.nesting hpath, hm.needsParens hpath]
    exact ih
  | unknown | quoted | number | keyword | named => exact primary (Nat.le_add_left ..)
  | parens _ ih => exact primary (Nat.le_succ_of_le (inner ih))
  | generic _ _ arguments _ ih =>
    refine primary (Nat.succ_le_succ (nestingAll_le_iff.2 (List.forall_mem_map.2 fun p hp => ?_)))
    exact ih p hp
  | record _ fields _ _ _ ih =>
    have hfields := nestingFields_le_iff.2 (List.forall_mem_map.2 fun p hp => inner (ih p hp))
    exact primary (Nat.succ_le_succ hfields)
  | function _ params _ _ _ _ ih ihresult =>
    have hparams := nestingFunctionParams_le_iff.2
      (List.forall_mem_map.2 fun p hp => inner (ih p hp))
    exact primary (Nat.succ_le_succ (Nat.max_le.2 ⟨hparams, inner ihresult⟩))
  | template _ params _ _ _ _ ih ihresult =>
    have hparams := nestingTemplateParams_le_iff.2
      (List.forall_mem_map.2 fun p hp => inner (ih p hp))
    exact primary (Nat.succ_le_succ (Nat.max_le.2 ⟨hparams, inner ihresult⟩))

/-- An expression that was read can be read again from its printed text exactly if no more types
nest there than the limit allows, the printer's parentheses included. They are at most twice as
many as nest in the text that was read. -/
theorem parse_print_iff (h : parse text file = .ok e) :
    (∀ file', (∃ m, parse e.print file' = .ok m) ↔ nesting e ≤ nestingLimit) ∧
    (∀ file' m, parse e.print file' = .ok m → same m e ∧ m.print = e.print) ∧
    ∀ placed d, scan text.toList = .ok placed →
      Spells d .type .closed (placed.map (·.token)) e → nesting e ≤ 2 * d := by
  have hwell := wellFormed_of_parse h
  refine ⟨fun file' => ⟨?_, fun hnesting => ?_⟩, fun file' m hm => ?_, fun placed d _ hspells => ?_⟩
  · rintro ⟨m, hm⟩
    exact hwell.nesting_le hm
  · obtain ⟨m, hm, -⟩ := parse_print hwell hnesting file'
    exact ⟨m, hm⟩
  · obtain ⟨m', hm', hsame⟩ := parse_print hwell (hwell.nesting_le hm) file'
    obtain rfl : m = m' := Except.ok.inj (hm.symm.trans hm')
    exact ⟨hsame, print_eq_of_same hsame⟩
  · exact Nat.le_of_add_right_le hspells.nesting_le

end Accepted

section Alternatives

def alternatives : Nat → TypeExpr
  | 0 => named .unknown "a"
  | k + 1 => union .unknown [named .unknown "a", .function .unknown [] (alternatives k)]

theorem isPlainName_a : IsPlainName "a" := by decide

def alternativesText : Nat → String
  | 0 => "a"
  | k + 1 => "a|()=>" ++ alternativesText k

def alternativesTokens : Nat → List Token
  | 0 => [.name "a"]
  | k + 1 => [.name "a", .bar, .openParen, .closeParen, .arrow] ++ alternativesTokens k

theorem written_alternatives (k : Nat) :
    Written Ends (alternativesText k) (alternativesTokens k) := by
  have hname : Written Ends "a" [.name "a"] := .name isPlainName_a.dotted
  induction k with
  | zero => exact hname
  | succ k ih =>
    have hbar : Written Free "|" [.bar] := .symbol '|' (by decide) rfl
    have hopen : Written Free "(" [.openParen] := .symbol '(' (by decide) rfl
    have hclose : Written Free ")" [.closeParen] := .symbol ')' (by decide) rfl
    have harrow : Written Free "=>" [.arrow] := .arrow
    have hhead : Written Free "a|()=>" [.name "a", .bar, .openParen, .closeParen, .arrow] :=
      (((hname.then_break hbar ⟨'|', [], by decide⟩).free_append hopen).free_append
        hclose).free_append harrow
    exact hhead.free_append ih

theorem spells_alternatives {k d : Nat} (h : k < d) :
    Spells d .type .closed (alternativesTokens k) (alternatives k) := by
  have hname (d : Nat) : Spells d .primary .closed [.name "a"] (named .unknown "a") :=
    .named _ (by decide)
  induction k generalizing d with
  | zero =>
    obtain ⟨d, rfl⟩ := Nat.exists_eq_add_of_lt h
    exact .single (.operand (.plain (hname _)))
  | succ k ih =>
    obtain ⟨d, rfl⟩ := Nat.exists_eq_add_of_le' (Nat.one_le_of_lt h)
    have hfunction : Spells d .primary .result
        ([.openParen, .closeParen, .arrow] ++ alternativesTokens k)
        (.function .unknown [] (alternatives k)) :=
      .function _ [] false (by simp) (by simp) (ih (Nat.lt_of_succ_lt_succ h))
    exact .union _ [([.name "a"], named .unknown "a")] (List.cons_ne_nil _ _)
      (List.forall_mem_singleton.2 (.operand (.plain (hname _)))) (.operand (.plain hfunction))

theorem wellFormed_alternatives (k : Nat) : WellFormed (alternatives k) := by
  have hname : WellFormed (named .unknown "a") := .named _ ⟨isPlainName_a.dotted, by decide⟩
  induction k with
  | zero => exact hname
  | succ k ih =>
    have hfunction : WellFormed (.function .unknown [] (alternatives k)) :=
      .function _ (by simp) (by simp) ih
    exact .union _ (Nat.le_refl 2)
      (List.forall_mem_cons.2 ⟨hname, List.forall_mem_singleton.2 hfunction⟩)

theorem nesting_alternatives (k : Nat) : nesting (alternatives k) = 2 * k + 1 := by
  induction k with
  | zero => rfl
  | succ k ih =>
    simp only [alternatives, nesting, nestingAll, nestingFunctionParams, needsParens, ih,
      Bool.toNat_true, Bool.toNat_false]
    omega

theorem parse_alternatives {k : Nat} (h : k < nestingLimit) (file : Option String) :
    ∃ e, parse (alternativesText k) file = .ok e ∧ same e (alternatives k) :=
  parse_of_written (spells_alternatives h) (written_alternatives k) file

theorem parse_print_iff_alternatives : ∃ e, parse (alternativesText 99) none = .ok e ∧
    (∀ file, (∃ m, parse e.print file = .ok m) ↔ nesting e ≤ nestingLimit) ∧
    (∀ file m, parse e.print file = .ok m → same m e ∧ m.print = e.print) ∧
    ∀ placed d, scan (alternativesText 99).toList = .ok placed →
      Spells d .type .closed (placed.map (·.token)) e → nesting e ≤ 2 * d := by
  obtain ⟨e, he, -⟩ := parse_alternatives (k := 99) (by decide) none
  exact ⟨e, he, parse_print_iff he⟩

theorem print_too_deep : ∃ e, parse (alternativesText 100) none = .ok e ∧
    ∀ m, parse e.print none ≠ .ok m := by
  obtain ⟨e, he, hsame⟩ := parse_alternatives (k := 100) (by decide) none
  refine ⟨e, he, fun m hm => ?_⟩
  rw [print_eq_of_same hsame] at hm
  have hnesting := (wellFormed_alternatives 100).nesting_le hm
  rw [nesting_alternatives] at hnesting
  exact absurd hnesting (by decide)

end Alternatives

end TemplateCheck.TypeExpr
