import TemplateCheck.Proofs.TypeExpr.Acceptance
import TemplateCheck.Proofs.TypeExpr.Places

/-! Reading the piece of a text where an expression in it is located. An operation is located from
its first part on, without the parentheses around that part, and a function up to its result,
without those around the result; so the piece may lack a parenthesis. It is read as the expression
if its parentheses match, and as nothing if they do not. -/

namespace TemplateCheck
open TypeExpr

/-- The piece of the text in this range. -/
def Location.source (l : Location) (text : String) : String :=
  String.Pos.Raw.extract text ⟨l.start⟩ ⟨l.stop⟩

theorem Location.source_eq {l : Location} {text : String} {front middle behind : List Char}
    (htext : text.toList = front ++ (middle ++ behind)) (hstart : byteCount front = l.start)
    (hstop : l.start + byteCount middle = l.stop) : l.source text = String.ofList middle := by
  have htext : text = String.ofList (front ++ middle ++ behind) := by
    rw [List.append_assoc, ← htext, String.ofList_toList]
  rw [Location.source, htext, ← hstop, ← hstart, ← utf8Len_eq_byteCount, ← utf8Len_eq_byteCount]
  exact String.extract_of_valid front middle behind

namespace TypeExpr

section Parentheses
variable {d : Nat} {level : Level} {b : Ending} {t : Token} {ts us : List Token}
  {items : List (List Token)} {e : TypeExpr}

def Paired (ts : List Token) : Prop := ts.count .openParen = ts.count .closeParen

namespace Paired

theorem nil : Paired [] := rfl

theorem append (h : Paired ts) (h' : Paired us) : Paired (ts ++ us) := by
  rw [Paired, List.count_append, List.count_append, h, h']

theorem cons (ht : t ≠ .openParen ∧ t ≠ .closeParen) (h : Paired ts) : Paired (t :: ts) := by
  rw [Paired, List.count_cons_of_ne ht.1, List.count_cons_of_ne ht.2]
  exact h

theorem parens (h : Paired ts) (h' : Paired us) :
    Paired (.openParen :: (ts ++ .closeParen :: us)) := by
  simp only [Paired, List.count_cons, List.count_append] at h h' ⊢
  simp [h, h']
  omega

theorem separate (ht : t ≠ .openParen ∧ t ≠ .closeParen) (h : ∀ ts ∈ items, Paired ts) :
    Paired (TypeExpr.separate t items) := by
  induction items with
  | nil => exact nil
  | cons ts items ih =>
    obtain ⟨hts, hitems⟩ := List.forall_mem_cons.1 h
    cases items with
    | nil => exact hts
    | cons us items => exact hts.append (.cons ht (ih hitems))

theorem entries (trailing : Bool) (h : ∀ ts ∈ items, Paired ts) :
    Paired (entryTokens items trailing) := by
  refine (separate (by decide) h).append ?_
  rw [commaEnd]
  split
  · exact .cons (by decide) nil
  · exact nil

theorem plain (h : Plain ts) : Paired ts := by
  induction ts with
  | nil => exact nil
  | cons t ts ih =>
    obtain ⟨ht, hts⟩ := List.forall_mem_cons.1 h
    refine cons ?_ (ih hts)
    constructor
    · rintro rfl
      exact absurd ht (by decide)
    · rintro rfl
      exact absurd ht (by decide)

end Paired

theorem Spells.paired (h : Spells d level b ts e) : Paired ts := by
  induction h with
  | single _ ih | operand _ ih | plain _ ih => exact ih
  | union _ init _ _ _ ihinit ih | intersection _ init _ _ _ ihinit ih =>
    refine .separate (by decide) (List.forall_mem_append.2 ⟨List.forall_mem_map.2 ihinit, ?_⟩)
    exact List.forall_mem_singleton.2 ih
  | access paths _ _ _ ih => exact ih.append (.plain (plain_path paths))
  | unknown | quoted | number | keyword | named => exact .plain (plain_single rfl)
  | generic _ _ arguments _ ih =>
    have hlist := Paired.separate (t := .comma) (by decide) (List.forall_mem_map.2 ih)
    exact .cons (by simp) (.cons (by decide) (hlist.append (.cons (by decide) .nil)))
  | parens _ ih => exact ih.parens .nil
  | record _ fields trailing _ _ ih =>
    have hlist := Paired.entries trailing (List.forall_mem_map.2 fun p hp =>
      (Paired.plain (plain_fieldHead p.2)).append (ih p hp))
    exact .cons (by decide) (hlist.append (.cons (by decide) .nil))
  | function _ params trailing _ _ _ ih ihresult =>
    have hlist := Paired.entries trailing (List.forall_mem_map.2 fun p hp =>
      (Paired.plain (plain_functionParamHead p.2)).append (ih p hp))
    exact hlist.parens (.cons (by decide) ihresult)
  | template _ params trailing _ _ _ ih ihresult =>
    have hlist := Paired.entries trailing (List.forall_mem_map.2 fun p hp =>
      (Paired.plain (plain_templateParamHead p.2)).append (ih p hp))
    exact .cons (by decide) (hlist.parens (.cons (by decide) ihresult))

end Parentheses

/-- The text has tokens, with as many opening parentheses as closing ones. -/
def ParensMatch (text : String) : Prop :=
  ∃ placed, scan text.toList = .ok placed ∧ Paired (placed.map (·.token))

section Sources
variable {text : String} {file : Option String} {e m n : TypeExpr}
  {tokens opens vs closes : List PlacedToken}

theorem Sits.scans_source (h : Sits file opens vs closes n)
    (htokens : Tokenized 0 text.toList tokens) (hvs : vs <:+: tokens) :
    Scans (n.location.source text).toList (vs.map (·.token)) := by
  obtain ⟨front, middle, rest, hsplit, hstart, hstop, hscans⟩ :=
    htokens.excerpt hvs h.covers.start h.covers.stop
  rw [Nat.zero_add] at hstart
  rwa [Location.source_eq hsplit hstart hstop, String.toList_ofList]

theorem Sits.eq_nil_of_paired (h : Sits file opens vs closes n) (haccess : n.isAccess = false)
    (hvs : Paired (vs.map (·.token))) : opens = [] ∧ closes = [] := by
  have hopens : opens.map (·.token) = List.replicate opens.length .openParen :=
    List.eq_replicate_iff.2 ⟨List.length_map .., List.forall_mem_map.2 h.opening⟩
  have hcloses : closes.map (·.token) = List.replicate closes.length .closeParen :=
    List.eq_replicate_iff.2 ⟨List.length_map .., List.forall_mem_map.2 h.closing⟩
  have hlength : opens.length = closes.length := by
    have hall := (h.spells haccess).paired
    rw [Paired] at hall hvs
    simp only [List.map_append, hopens, hcloses, List.count_append, List.count_replicate] at hall
    simp at hall
    omega
  cases hkind : n.isFunctionLike with
  | false =>
    obtain rfl := h.closes_nil hkind
    exact ⟨List.eq_nil_of_length_eq_zero hlength, rfl⟩
  | true =>
    have hoperation : n.isOperation = false := by
      cases n <;> first | rfl | cases hkind
    obtain rfl := h.opens_nil hoperation
    exact ⟨rfl, List.eq_nil_of_length_eq_zero hlength.symm⟩

theorem parse_of_scans {ts : List Token} (h : Scans text.toList ts) (file : Option String) :
    (∀ n, (∃ m, parse text file = .ok m ∧ m.same n) ↔ Spells nestingLimit .type .closed ts n) ∧
      (ParensMatch text ↔ Paired ts) := by
  obtain ⟨placed, hscan, rfl⟩ := h text.toList.length 0 (Nat.le_refl _)
  have hparse : parse text file = ofTokens file (byteCount text.toList) placed := by
    rw [parse, scan, hscan]
    rfl
  rw [hparse]
  refine ⟨(ofTokens_iff_spells file _ placed).1, ?_⟩
  constructor
  · rintro ⟨placed', hscan', hpaired⟩
    cases hscan.symm.trans hscan'
    exact hpaired
  · exact fun hpaired => ⟨placed, hscan, hpaired⟩

/-- An expression is read back from the piece of the text where it is located exactly if the
parentheses in this piece match, and nothing is read from it otherwise. They match for all but
operations and functions. -/
theorem parse_source_iff (h : parse text file = .ok e) (hn : e.Contains n)
    (haccess : n.isAccess = false) (file' : Option String) :
    (∀ m, parse (n.location.source text) file' = .ok m → m.same n) ∧
    ((∃ m, parse (n.location.source text) file' = .ok m) ↔ ParensMatch (n.location.source text)) ∧
    (n.isOperation = false → n.isFunctionLike = false →
      ParensMatch (n.location.source text)) := by
  obtain ⟨tokens, htokens, hsited⟩ := sited_of_parse h
  obtain ⟨opens, vs, closes, hall, hsits⟩ := hsited.within n hn
  have hscans := hsits.scans_source htokens (List.IsInfix.trans ⟨opens, closes, rfl⟩ hall)
  obtain ⟨hread, hmatch⟩ := parse_of_scans hscans file'
  have hspells (hpaired : Paired (vs.map (·.token))) :
      Spells nestingLimit .type .closed (vs.map (·.token)) n := by
    obtain ⟨rfl, rfl⟩ := hsits.eq_nil_of_paired haccess hpaired
    simpa using hsits.spells haccess
  have hspelled {m : TypeExpr} (hm : parse (n.location.source text) file' = .ok m) :
      Spells nestingLimit .type .closed (vs.map (·.token)) m := (hread m).1 ⟨m, hm, same_refl m⟩
  refine ⟨fun m hm => (hspelled hm).unique (hspells (hspelled hm).paired), ⟨?_, ?_⟩, ?_⟩
  · rintro ⟨m, hm⟩
    exact hmatch.2 (hspelled hm).paired
  · intro hparens
    obtain ⟨m, hm, -⟩ := (hread n).2 (hspells (hmatch.1 hparens))
    exact ⟨m, hm⟩
  · intro hoperation hfunction
    have hown := (hsits.spells haccess).paired
    rw [hsits.opens_nil hoperation, hsits.closes_nil hfunction, List.nil_append,
      List.append_nil] at hown
    exact hmatch.2 hown

theorem parse_source_iff_list : ∃ e, parse "list<int>|(null)" none = .ok e ∧ e.Contains e ∧
    e.isAccess = false ∧
    (∀ m, parse (e.location.source "list<int>|(null)") none = .ok m → m.same e) ∧
    ((∃ m, parse (e.location.source "list<int>|(null)") none = .ok m) ↔
      ParensMatch (e.location.source "list<int>|(null)")) ∧
    (e.isOperation = false → e.isFunctionLike = false →
      ParensMatch (e.location.source "list<int>|(null)")) := by
  have hkind : (parse "list<int>|(null)" none).toOption.map (·.isAccess) = some false := by
    decide +kernel
  cases h : parse "list<int>|(null)" none with
  | error fault =>
    rw [h] at hkind
    cases hkind
  | ok e =>
    rw [h] at hkind
    have haccess : e.isAccess = false := Option.some.inj hkind
    exact ⟨e, rfl, .self e, haccess, parse_source_iff h (.self e) haccess none⟩

theorem parse_source_overlapping : ∃ e, parse "(int)|null" none = .ok e ∧
    e.same (.union .unknown [.named .unknown "int", .literal .unknown .null]) ∧
    e.location.source "(int)|null" = "int)|null" ∧ ∀ m, parse "int)|null" none ≠ .ok m := by
  let expected : TypeExpr := .union .unknown [.named .unknown "int", .literal .unknown .null]
  have hshape : (parse "(int)|null" none).toOption.map (fun e => (e.same expected, e.location)) =
      some (true, ⟨none, 1, 10⟩) := by
    decide +kernel
  have hnone : (parse "int)|null" none).toOption.map (·.location) = none := by decide +kernel
  cases h : parse "(int)|null" none with
  | error fault =>
    rw [h] at hshape
    cases hshape
  | ok e =>
    rw [h] at hshape
    obtain ⟨hsame, hlocation⟩ := Prod.mk.inj (Option.some.inj hshape)
    refine ⟨e, rfl, hsame, ?_, fun m hm => ?_⟩
    · rw [hlocation]
      decide
    · rw [hm] at hnone
      cases hnone

end Sources

end TypeExpr
end TemplateCheck
