import TemplateCheck.Proofs.TypeExpr.Depth
import TemplateCheck.Proofs.TypeExpr.Soundness
import TemplateCheck.Proofs.TypeExpr.Subexpressions
import TemplateCheck.Proofs.TypeExpr.Tokens

/-! What tokens an expression and its parts are read from, and what its location covers of them:
all, up to parentheses around the first part of an operation, which stand in front of the location,
and around the result of a function, which stand behind it. -/

namespace TemplateCheck.TypeExpr
variable {file : Option String} {d n fuel : Nat} {level : Level} {b : Ending} {e m : TypeExpr}
  {ts us vs opens closes : List PlacedToken} {ls ms : List Location} {es fs : List TypeExpr}

section Readings
variable {ts : List Token}

theorem Spells.mono {d' : Nat} (h : Spells d level b ts e) (hd : d ≤ d') :
    Spells d' level b ts e := by
  induction h generalizing d' with
  | single _ ih =>
    obtain ⟨d', rfl⟩ := Nat.exists_eq_add_of_le' (Nat.le_of_add_left_le hd)
    exact .single (ih (Nat.le_of_succ_le_succ hd))
  | union l init nonempty _ _ ihinit ih =>
    obtain ⟨d', rfl⟩ := Nat.exists_eq_add_of_le' (Nat.le_of_add_left_le hd)
    have hd := Nat.le_of_succ_le_succ hd
    exact .union l init nonempty (fun p hp => ihinit p hp hd) (ih hd)
  | operand _ ih => exact .operand (ih hd)
  | intersection l init nonempty _ _ ihinit ih =>
    exact .intersection l init nonempty (fun p hp => ihinit p hp hd) (ih hd)
  | plain _ ih => exact .plain (ih hd)
  | access paths nonempty _ hm ih => exact .access paths nonempty (ih hd) hm
  | unknown l => exact .unknown l
  | quoted l value => exact .quoted l value
  | number l text => exact .number l text
  | keyword l h => exact .keyword l h
  | named l h => exact .named l h
  | generic l h arguments _ ih => exact .generic l h arguments fun p hp => ih p hp hd
  | parens _ ih => exact .parens (ih hd)
  | record l fields trailing names _ ih =>
    exact .record l fields trailing names fun p hp => ih p hp hd
  | function l params trailing names _ _ ih ihresult =>
    exact .function l params trailing names (fun p hp => ih p hp hd) (ihresult hd)
  | template l params trailing names _ _ ih ihresult =>
    exact .template l params trailing names (fun p hp => ih p hp hd) (ihresult hd)

theorem Spells.whole (h : Spells d level b ts e) (hd : d + level.slack ≤ n) :
    Spells n .type .closed ts e := by
  cases level with
  | type =>
    obtain rfl := h.type_closed
    exact h.mono hd
  | inter => exact (Spells.single h).mono hd
  | post => exact (Spells.single (.operand h)).mono hd
  | primary => exact (Spells.single (.operand (.plain h))).mono hd

end Readings

/-- The location reaches from the first of the tokens to the last one. -/
structure Covers (file : Option String) (vs : List PlacedToken) (l : Location) : Prop where
  file : l.file = file
  start : firstStart vs = some l.start
  stop : lastStop vs = some l.stop

inductive Row (file : Option String) : List PlacedToken → List Location → Prop where
  | nil (vs : List PlacedToken) : Row file vs []
  | cons (gap : List PlacedToken) {vs rest : List PlacedToken} {l : Location} {ls : List Location}
      (hl : Covers file vs l) (h : Row file rest ls) : Row file (gap ++ (vs ++ rest)) (l :: ls)

namespace Row
variable {l : Location}

theorem prepend (gap : List PlacedToken) (h : Row file vs ls) : Row file (gap ++ vs) ls := by
  cases h with
  | nil => exact .nil _
  | cons more hl h =>
    rw [← List.append_assoc]
    exact .cons _ hl h

theorem append (h : Row file vs ls) (h' : Row file us ms) : Row file (vs ++ us) (ls ++ ms) := by
  induction h with
  | nil => exact h'.prepend _
  | cons gap hl _ ih =>
    rw [List.append_assoc, List.append_assoc]
    exact .cons gap hl ih

theorem single (h : Covers file vs l) : Row file vs [l] := by
  have hrow : Row file ([] ++ (vs ++ [])) [l] := .cons [] h (.nil [])
  rwa [List.nil_append, List.append_nil] at hrow

end Row

/-- The expression `e` was read from the tokens `opens ++ vs ++ closes`, of which its location
covers `vs`. -/
structure Sits (file : Option String) (opens vs closes : List PlacedToken) (e : TypeExpr) :
    Prop where
  covers : Covers file vs e.location
  row : Row file vs e.pieces
  opening : ∀ t ∈ opens, t.token = .openParen
  closing : ∀ t ∈ closes, t.token = .closeParen
  opens_nil : e.isOperation = false → opens = []
  closes_nil : e.isFunctionLike = false → closes = []
  spells : e.isAccess = false →
    Spells nestingLimit .type .closed ((opens ++ vs ++ closes).map (·.token)) e

structure Sited (file : Option String) (ts : List PlacedToken) (e : TypeExpr) : Prop where
  front : ∃ opens vs closes, ts = opens ++ vs ++ closes ∧ (∀ t ∈ opens, t.token = .openParen) ∧
    (∀ t ∈ closes, t.token = .closeParen) ∧ Covers file vs e.location
  within : ∀ n, e.Contains n → ∃ opens vs closes, opens ++ vs ++ closes <:+: ts ∧
    Sits file opens vs closes n

structure Lays (file : Option String) (vs : List PlacedToken) (ls : List Location)
    (es : List TypeExpr) : Prop where
  row : Row file vs ls
  parts : ∀ e ∈ es, ∃ us, us <:+: vs ∧ Sited file us e

namespace Lays

theorem gap (vs : List PlacedToken) : Lays file vs [] [] := ⟨.nil vs, List.forall_mem_nil _⟩

theorem append (h : Lays file vs ls es) (h' : Lays file us ms fs) :
    Lays file (vs ++ us) (ls ++ ms) (es ++ fs) := by
  refine ⟨h.row.append h'.row, List.forall_mem_append.2 ⟨fun e he => ?_, fun e he => ?_⟩⟩
  · obtain ⟨ts, hts, hsited⟩ := h.parts e he
    exact ⟨ts, hts.trans (List.infix_append' [] vs us), hsited⟩
  · obtain ⟨ts, hts, hsited⟩ := h'.parts e he
    exact ⟨ts, hts.trans (List.suffix_append vs us).isInfix, hsited⟩

theorem prepend (gap : List PlacedToken) (h : Lays file vs ls es) : Lays file (gap ++ vs) ls es :=
  (Lays.gap gap).append h

theorem token {p : PlacedToken} : Lays file [p] [⟨file, p.start, p.stop⟩] [] :=
  ⟨.single ⟨rfl, rfl, rfl⟩, List.forall_mem_nil _⟩

end Lays

namespace Sited

theorem starts (h : Sited file ts e) : ∃ opens us, ts = opens ++ us ∧
    (∀ t ∈ opens, t.token = .openParen) ∧ firstStart us = some e.location.start ∧
    Row file us [e.location] := by
  obtain ⟨opens, vs, closes, rfl, hopens, -, hcovers⟩ := h.front
  refine ⟨opens, vs ++ closes, by rw [List.append_assoc], hopens, ?_, ?_⟩
  · rw [firstStart_append, hcovers.start, Option.some_or]
  · exact (Row.single hcovers).append (.nil closes)

theorem ends (h : Sited file ts e) : ∃ us closes, ts = us ++ closes ∧
    (∀ t ∈ closes, t.token = .closeParen) ∧ lastStop us = some e.location.stop ∧
    Row file us [e.location] := by
  obtain ⟨opens, vs, closes, rfl, -, hcloses, hcovers⟩ := h.front
  refine ⟨opens ++ vs, closes, rfl, hcloses, ?_, (Row.single hcovers).prepend opens⟩
  rw [lastStop_append, hcovers.stop, Option.some_or]

theorem ne_nil (h : Sited file ts e) : ts ≠ [] := by
  obtain ⟨opens, us, rfl, -, hstart, -⟩ := h.starts
  rintro hnil
  obtain ⟨-, rfl⟩ := List.append_eq_nil_iff.1 hnil
  cases hstart

theorem lays (h : Sited file ts e) : Lays file ts [e.location] [e] := by
  obtain ⟨opens, us, rfl, -, -, hrow⟩ := id h.starts
  exact ⟨hrow.prepend opens, List.forall_mem_singleton.2 ⟨_, List.infix_refl _, h⟩⟩

theorem node (h : Sits file opens vs closes e)
    (hparts : ∀ p ∈ e.parts, ∃ us, us <:+: opens ++ vs ++ closes ∧ Sited file us p) :
    Sited file (opens ++ vs ++ closes) e where
  front := ⟨opens, vs, closes, rfl, h.opening, h.closing, h.covers⟩
  within n hn := by
    cases hn with
    | self => exact ⟨opens, vs, closes, List.infix_refl _, h⟩
    | part hp hn =>
      obtain ⟨us, hus, hsited⟩ := hparts _ hp
      obtain ⟨opens', vs', closes', hvs, hsits⟩ := hsited.within n hn
      exact ⟨opens', vs', closes', hvs.trans hus, hsits⟩

theorem parens {p q : PlacedToken} (hp : p.token = .openParen) (hq : q.token = .closeParen)
    (h : Sited file ts e) : Sited file ([p] ++ ts ++ [q]) e where
  front := by
    obtain ⟨opens, vs, closes, rfl, hopens, hcloses, hcovers⟩ := h.front
    refine ⟨p :: opens, vs, closes ++ [q], by simp, List.forall_mem_cons.2 ⟨hp, hopens⟩, ?_,
      hcovers⟩
    exact List.forall_mem_append.2 ⟨hcloses, List.forall_mem_singleton.2 hq⟩
  within n hn := by
    obtain ⟨opens, vs, closes, hvs, hsits⟩ := h.within n hn
    exact ⟨opens, vs, closes, hvs.trans (List.infix_append [p] ts [q]), hsits⟩

theorem closed (hcovers : Covers file vs e.location) (hlays : Lays file vs e.pieces e.parts)
    (hspells : Spells nestingLimit .type .closed (vs.map (·.token)) e) : Sited file vs e := by
  have hall : [] ++ vs ++ [] = vs := List.append_nil vs
  rw [← hall]
  refine node ⟨hcovers, hlays.row, List.forall_mem_nil _, List.forall_mem_nil _, fun _ => rfl,
    fun _ => rfl, fun _ => ?_⟩ ?_
  · rwa [hall]
  · rw [hall]
    exact hlays.parts

theorem functionLike {result : TypeExpr} {a : Nat} (hhead : Lays file vs ls es)
    (hresult : Sited file us result) (hstart : firstStart vs = some a)
    (hlocation : e.location = ⟨file, a, result.location.stop⟩)
    (hpieces : e.pieces = ls ++ [result.location]) (hparts : e.parts = es ++ [result])
    (hkind : e.isFunctionLike)
    (hspells : Spells nestingLimit .type .closed ((vs ++ us).map (·.token)) e) :
    Sited file (vs ++ us) e := by
  have hlays := hhead.append hresult.lays
  obtain ⟨ts, closes, rfl, hcloses, hstop, hrow⟩ := hresult.ends
  have hall : [] ++ (vs ++ ts) ++ closes = vs ++ (ts ++ closes) := by simp
  rw [← hall] at hspells hlays ⊢
  refine node ⟨?_, ?_, List.forall_mem_nil _, hcloses, fun _ => rfl, fun hnot => ?_,
    fun _ => hspells⟩ (hparts ▸ hlays.parts)
  · rw [hlocation]
    exact ⟨rfl, by simp [hstart], by simp [hstop]⟩
  · rw [hpieces]
    exact hhead.row.append hrow
  · rw [hkind] at hnot
    cases hnot

theorem operation {first : TypeExpr} {z : Nat} (hfirst : Sited file us first)
    (hrest : Lays file vs ls es) (hstop : lastStop (us ++ vs) = some z)
    (hlocation : e.location = ⟨file, first.location.start, z⟩)
    (hpieces : e.pieces = first.location :: ls) (hparts : e.parts = first :: es)
    (hkind : e.isOperation) (hspells : e.isAccess = false →
      Spells nestingLimit .type .closed ((us ++ vs).map (·.token)) e) :
    Sited file (us ++ vs) e := by
  have hlays := hfirst.lays.append hrest
  obtain ⟨opens, ts, rfl, hopens, hstart, hrow⟩ := hfirst.starts
  have hall : opens ++ (ts ++ vs) ++ [] = opens ++ ts ++ vs := by simp
  have hstart' : firstStart (ts ++ vs) = some first.location.start := by simp [hstart]
  rw [← hall] at hspells hlays hstop ⊢
  rw [List.append_nil, lastStop_append_of_firstStart hstart'] at hstop
  refine node ⟨?_, ?_, hopens, List.forall_mem_nil _, fun hnot => ?_, fun _ => rfl, hspells⟩
    (hparts ▸ hlays.parts)
  · rw [hlocation]
    exact ⟨rfl, hstart', hstop⟩
  · rw [hpieces]
    exact hrow.append hrest.row
  · rw [hkind] at hnot
    cases hnot

end Sited

end TemplateCheck.TypeExpr
