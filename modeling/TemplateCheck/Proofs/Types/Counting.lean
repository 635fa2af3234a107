import TemplateCheck.Proofs.Types.Membership
import TemplateCheck.Proofs.Types.Signatures
import TemplateCheck.Types.Checker

/-! What a checker with a count of open comparisons answers: what the rules say without any bound,
unless they go deeper than the count allows. -/

namespace TemplateCheck
open Assignable

namespace Checker

def Answers (m : Comparing Bool) (n : Nat) (answer : Bool) : Prop := m n = (answer, n)

namespace Answers
variable {α : Type} {m m' : Comparing Bool} {n : Nat} {a b : Bool} {l : List α}
  {p : α → Comparing Bool} {q : α → Bool}

theorem ret (a : Bool) (n : Nat) : Answers (pure a) n a := rfl

theorem get {f : Nat → Comparing Bool} (h : Answers (f n) n a) : Answers (do f (← get)) n a := h

theorem counted (h : Answers m (n + 1) a) : Answers (Checker.counted m) n a := by
  change ((m (n + 1)).1, (m (n + 1)).2 - 1) = (a, n)
  rw [h, Nat.add_sub_cancel]

theorem bind {f : Bool → Comparing Bool} (h : Answers m n a) (hf : Answers (f a) n b) :
    Answers (m >>= f) n b := by
  change f (m n).1 (m n).2 = (b, n)
  rw [h]
  exact hf

theorem provided (c : Bool) (h : Answers m n a) :
    Answers (if c then m else return false) n (c && a) := by
  cases c with
  | true => exact h
  | false => exact ret false n

theorem both (h : Answers m n a) (h' : Answers m' n b) :
    Answers (do if ← m then m' else return false) n (a && b) :=
  h.bind (h'.provided a)

theorem guarded (c : Bool) (h : Answers m n a) :
    Answers (if c then return false else m) n (!c && a) := by
  cases c with
  | true => exact ret false n
  | false => exact h

theorem allM_cons {x : α} (h : Answers (p x) n a) (h' : Answers (l.allM p) n b) :
    Answers ((x :: l).allM p) n (a && b) := by
  refine h.bind ?_
  cases a with
  | true => exact h'
  | false => exact ret false n

theorem allM (h : ∀ x ∈ l, Answers (p x) n (q x)) : Answers (l.allM p) n (l.all q) := by
  induction l with
  | nil => exact ret true n
  | cons x l ih =>
    rw [List.forall_mem_cons] at h
    obtain ⟨hx, hl⟩ := h
    exact hx.allM_cons (ih hl)

theorem anyM (h : ∀ x ∈ l, Answers (p x) n (q x)) : Answers (l.anyM p) n (l.any q) := by
  induction l with
  | nil => exact ret false n
  | cons x l ih =>
    rw [List.forall_mem_cons] at h
    obtain ⟨hx, hl⟩ := h
    rw [List.any_cons, List.anyM]
    refine hx.bind ?_
    cases q x with
    | true => exact ret true n
    | false => exact ih hl

end Answers

section Rules
variable {compare : TypeId → TypeId → Comparing Bool} {accepts : TypeId → TypeId → Bool} {n : Nat}
  (h : ∀ t u, Answers (compare t u) n (accepts t u))
include h

theorem answers_record (ps qs : List (RecordProperty TypeId)) :
    Answers (checkRecord compare ps qs) n (recordAccepts accepts ps qs) := by
  unfold checkRecord recordAccepts
  apply Answers.allM
  intro p _
  cases qs.find? (·.name == p.name) with
  | none => exact .ret _ n
  | some q =>
    have hpart := (h p.type q.type).guarded (q.optional && !p.optional)
    rwa [Bool.not_and, Bool.not_not] at hpart

theorem answers_given (f g : TemplateShape TypeId) :
    Answers (checkGiven compare f g) n (f.parameters.all fun p =>
      match g.parameters.find? (sameParameter p) with
      | none => false
      | some q => (!q.required || p.required) && accepts q.type p.type) := by
  unfold checkGiven
  apply Answers.allM
  intro p _
  cases g.parameters.find? (sameParameter p) with
  | none => exact .ret false n
  | some q =>
    have hpart := (h q.type p.type).guarded (q.required && !p.required)
    rwa [Bool.not_and, Bool.not_not] at hpart

theorem answers_template (f g : TemplateShape TypeId) :
    Answers (checkTemplate compare f g) n (templateAccepts accepts f g) := by
  unfold checkTemplate templateAccepts
  refine (answers_given h f g).bind ?_
  rw [List.all_filter]
  exact (h f.result g.result).provided _

theorem answers_parameters (g : FunctionShape TypeId) (ps : List (FunctionParameter TypeId))
    (start : Nat) : Answers (checkParameters compare g (ps.zipIdx start)) n
      (parametersAccepted accepts g start ps) := by
  induction ps generalizing start with
  | nil => exact .ret true n
  | cons p ps ih =>
    rw [List.zipIdx_cons]
    refine Answers.allM_cons ?_ (ih (start + 1))
    change Answers (checkParameter compare g start p) n _
    unfold checkParameter
    cases parameterAt g start with
    | none => exact .ret false n
    | some q => exact h q.type p.type

theorem answers_function (f g : FunctionShape TypeId) :
    Answers (checkFunction compare f g) n (functionAccepts accepts f g) := by
  have hparts := (answers_parameters h g f.parameters 0).both (h f.result g.result)
  have hsurplus := hparts.guarded
    ((variadicLast g).isNone && fixedCount g < f.parameters.length)
  have henough := hsurplus.guarded (f.parameters.length < fixedCount g)
  have haccepts : functionAccepts accepts f g =
      (!decide (f.parameters.length < fixedCount g) &&
        (!((variadicLast g).isNone && decide (fixedCount g < f.parameters.length)) &&
          (parametersAccepted accepts g 0 f.parameters && accepts f.result g.result))) := by
    rw [functionAccepts, Bool.not_and, ← decide_not, ← decide_not]
    simp only [Nat.not_lt, Option.not_isNone, Bool.and_assoc]
  rw [haccepts]
  simpa only [checkFunction, decide_eq_true_eq] using henough

theorem answers_entry (k t l u : TypeId) :
    Answers (checkEntry compare k t l u) n (accepts k l && accepts t u) :=
  (h k l).both (h t u)

theorem answers_form (d e : TypeData) :
    Answers (checkForm compare d e) n (formAccepts accepts d e) := by
  cases d with
  | error | intrinsic => exact .ret _ n
  | element | message | enum => cases e <;> exact .ret _ n
  | list t =>
    cases e with
    | list u => exact h t u
    | _ => exact .ret false n
  | set t =>
    cases e with
    | set u => exact h t u
    | _ => exact .ret false n
  | iterable t =>
    cases e with
    | iterable u | list u | set u => exact h t u
    | _ => exact .ret false n
  | map k t =>
    cases e with
    | map l u => exact answers_entry h k t l u
    | _ => exact .ret false n
  | legacyObjectMap k t =>
    cases e with
    | legacyObjectMap l u => exact answers_entry h k t l u
    | _ => exact .ret false n
  | record ps =>
    cases e with
    | record qs => exact answers_record h ps qs
    | _ => exact .ret false n
  | template f =>
    cases e with
    | template g => exact answers_template h f g
    | _ => exact .ret false n
  | function f =>
    cases e with
    | function g => exact answers_function h f g
    | _ => exact .ret false n
  | union | intersection | literal => cases e <;> exact .ret false n

theorem answers_parts (s : TypeStore) (t u : TypeId) :
    Answers (checkParts compare s t u) n (distribute accepts s t u) := by
  unfold checkParts distribute
  generalize s.data t = d
  generalize s.data u = e
  cases e with
  | union members => cases d <;> exact .allM fun v _ => h t v
  | intersection members =>
    cases d with
    | union => exact .anyM fun v _ => h v u
    | intersection => exact .allM fun v _ => h v u
    | _ => exact .anyM fun v _ => h t v
  | _ =>
    cases d with
    | union => exact .anyM fun v _ => h v u
    | intersection => exact .allM fun v _ => h v u
    | _ => exact answers_form h ..

theorem answers_check (s : TypeStore) (mode : Mode) (t u : TypeId) :
    Answers (check compare s mode t u) n (step accepts s mode t u) := by
  unfold check step
  split
  · exact .ret true n
  · split
    · exact .ret true n
    · split
      · exact .ret _ n
      · exact answers_parts h ..

end Rules

section Counting
variable {s : TypeStore} {mode : Mode} {t u : TypeId}

theorem within_self (s : TypeStore) (mode : Mode) (n : Nat) (t : TypeId) :
    within s mode n t t = true := by
  cases n with
  | zero => exact decide_eq_true rfl
  | succ n => rw [within, decide_eq_true rfl, Bool.true_or]

theorem answers_compareWithin {rounds n : Nat} (h : depthLimit ≤ n + rounds) :
    Answers (compareWithin s mode rounds t u) n (within s mode (depthLimit - n) t u) := by
  induction rounds generalizing n t u with
  | zero =>
    have hzero : depthLimit - n = 0 := Nat.sub_eq_zero_of_le h
    rw [hzero]
    exact .ret _ n
  | succ rounds ih =>
    unfold compareWithin
    split
    next heq =>
      rw [heq, within_self]
      exact .ret true n
    next hne =>
      refine .get ?_
      split
      next hle =>
        rw [Nat.sub_eq_zero_of_le hle, within, decide_eq_false hne]
        exact .ret false n
      next hlt =>
        have hleft : depthLimit - n = depthLimit - (n + 1) + 1 := by omega
        rw [hleft, within, decide_eq_false hne, Bool.false_or]
        apply Answers.counted
        apply answers_check
        intro a b
        apply ih
        omega

theorem answers_isAssignable (n : Nat) :
    Answers (isAssignable s mode t u) n (within s mode (depthLimit - n) t u) :=
  answers_compareWithin (by omega)

theorem answers_fresh (s : TypeStore) (mode : Mode) (t u : TypeId) :
    Answers (isAssignable s mode t u) 0 (s.isAssignable mode t u) :=
  answers_isAssignable 0

end Counting

end Checker

namespace TypeStore
variable {s : TypeStore} {mode : Mode} {t u : TypeId} {answer : TypeId → TypeId → Bool}

/-- The answers follow the rules however deep these go: two types compare by one step of the rules
from the answers themselves. -/
def Unbounded (s : TypeStore) (mode : Mode) (answer : TypeId → TypeId → Bool) : Prop :=
  ∀ t u, s.Known t → s.Known u → answer t u = (decide (t = u) || step answer s mode t u)

theorem Sound.unbounded_accepts (h : s.Sound) (mode : Mode) : s.Unbounded mode (s.accepts mode) :=
  fun _ _ ht hu => h.accepts_eq ht hu

/-- The types get smaller from step to step, so the rules leave no choice. -/
theorem Unbounded.eq_accepts (hanswer : s.Unbounded mode answer) (h : s.Sound) (ht : s.Known t)
    (hu : s.Known u) : answer t u = s.accepts mode t u := by
  induction hn : s.depth t + s.depth u using Nat.strong_induction_on generalizing t u with
  | _ n ih =>
    have hdistribute : distribute answer s t u = distribute (s.accepts mode) s t u := by
      apply h.distribute_congr ht hu
      intro x y hx hy hlt
      exact ih _ (hn ▸ hlt) hx hy rfl
    rw [hanswer t u ht hu, h.accepts_eq ht hu, step, step, hdistribute]

theorem within_add {n : Nat} (h : within s mode n t u) (k : Nat) : within s mode (n + k) t u := by
  induction k with
  | zero => exact h
  | succ k ih => exact within_succ ih

theorem Sound.accepts_of_within (h : s.Sound) (ht : s.Known t) (hu : s.Known u) {n : Nat}
    (hwithin : within s mode n t u) : s.accepts mode t u := by
  have hlarge := within_add hwithin (s.depth t + s.depth u + 1)
  rwa [h.within_eq ht hu (Nat.lt_of_lt_of_le (Nat.lt_succ_self _) (Nat.le_add_left _ _))
    (Nat.lt_succ_self _)] at hlarge

end TypeStore

namespace Session
open TypeStore
variable {σ : Session}

/-- The rules have answers without a bound, and only one for two types. A checker accepts nothing
that they refuse, answers as they do below a total depth of 500, and is ready for the next question
afterwards. -/
theorem checker_answers (hσ : σ.Reached) (mode : Mode) :
    (∃ answer, σ.store.Unbounded mode answer) ∧
    ∀ answer, σ.store.Unbounded mode answer → ∀ t ∈ σ.issued, ∀ u ∈ σ.issued,
      (σ.store.isAssignable mode t u → answer t u) ∧
      (σ.store.depth t + σ.store.depth u < 500 → σ.store.isAssignable mode t u = answer t u) ∧
      Checker.isAssignable σ.store mode t u 0 = (σ.store.isAssignable mode t u, 0) ∧
      ∀ count, ∃ a : Bool, Checker.isAssignable σ.store mode t u count = (a, count) ∧
        (a → answer t u) := by
  have hsound := hσ.valid.sound
  refine ⟨⟨_, hsound.unbounded_accepts mode⟩, fun answer hanswer t ht u hu => ?_⟩
  have ht := hσ.valid.known t ht
  have hu := hσ.valid.known u hu
  rw [hanswer.eq_accepts hsound ht hu]
  refine ⟨hsound.accepts_of_within ht hu, hsound.isAssignable_eq ht hu,
    Checker.answers_fresh _ _ _ _, fun count => ?_⟩
  exact ⟨_, Checker.answers_isAssignable count, hsound.accepts_of_within ht hu⟩

theorem checker_answers_html :
    ∃ answer, Session.single.store.Unbounded .strict answer ∧
      Session.single.store.depth .html + Session.single.store.depth .element < 500 ∧
      Checker.isAssignable Session.single.store .strict .html .element 0 = (true, 0) ∧
      answer .html .element := by
  have hdepth : Session.single.store.depth .html + Session.single.store.depth .element < 500 := by
    decide
  obtain ⟨⟨answer, hanswer⟩, hall⟩ := checker_answers reached_single .strict
  obtain ⟨-, hequal, hchecker, -⟩ := hall answer hanswer .html (by decide) .element (by decide)
  have hhtml : Session.single.store.isAssignable .strict .html .element := html_accepts_element _
  rw [hhtml] at hchecker
  rw [hhtml] at hequal
  exact ⟨answer, hanswer, hdepth, hchecker, (hequal hdepth).symm⟩

end Session
end TemplateCheck
