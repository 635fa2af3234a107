import TemplateCheck.Proofs.TypeExpr.Completeness
import TemplateCheck.Proofs.TypeExpr.WellFormed

/-! A printed expression is read back as the same expression. -/

namespace TemplateCheck.TypeExpr
variable {d : Nat} {level : Level} {b : Ending} {F G : List Char → Prop} {text : String}
  {e m : TypeExpr}

def Shows (F : List Char → Prop) (d : Nat) (level : Level) (b : Ending) (text : String)
    (e : TypeExpr) : Prop := ∃ ts, Spells d level b ts e ∧ Written F text ts

namespace Shows

theorem lift {d' : Nat} {level' : Level} {b' : Ending} (h : Shows F d level b text e)
    (hs : ∀ {ts}, Spells d level b ts e → Spells d' level' b' ts e) :
    Shows F d' level' b' text e := by
  obtain ⟨ts, hspells, hwritten⟩ := h
  exact ⟨ts, hs hspells, hwritten⟩

theorem ends (h : Shows Free d level b text e) : Shows Ends d level b text e := by
  obtain ⟨ts, hspells, hwritten⟩ := h
  exact ⟨ts, hspells, hwritten.mono fun _ _ => trivial⟩

theorem post (h : Shows F d .primary b text e) : Shows F d .post b text e := h.lift .plain

theorem inter (h : Shows F d .primary b text e) : Shows F d .inter b text e :=
  h.lift fun hs => .operand (.plain hs)

theorem parens (h : Shows Ends d .type .closed text e) :
    Shows Free d .primary .closed ("(" ++ text ++ ")") e := by
  obtain ⟨ts, hspells, hwritten⟩ := h
  exact ⟨_, .parens hspells, hwritten.parens⟩

end Shows

theorem memberText_bare {position : Position} (h : needsParens position e = false) :
    memberText position e = e.print := by
  rw [memberText, h]
  rfl

theorem memberText_parens {position : Position} (h : needsParens position e) :
    memberText position e = "(" ++ e.print ++ ")" := by
  rw [memberText, h]
  rfl

section Paths

theorem splitAtChar_append {separator : Char} {cs : List Char} (h : separator ∉ cs)
    (rest : List Char) : Text.splitAtChar separator (cs ++ separator :: rest) =
      cs :: Text.splitAtChar separator rest := by
  induction cs with
  | nil => rw [List.nil_append, Text.splitAtChar, if_pos rfl]
  | cons c cs ih =>
    rw [List.mem_cons, not_or] at h
    rw [List.cons_append, Text.splitAtChar, if_neg (Ne.symm h.1), ih h.2]

theorem joinWith_cons (separator p q : String) (path : List String) :
    Text.joinWith separator (p :: q :: path) =
      p ++ separator ++ Text.joinWith separator (q :: path) := rfl

theorem splitAtChar_joinWith {path : List String} (hpath : path ≠ [])
    (h : ∀ p ∈ path, IsPlainName p) :
    Text.splitAtChar '.' (Text.joinWith "." path).toList = path.map String.toList := by
  induction path with
  | nil => exact absurd rfl hpath
  | cons p path ih =>
    have hp := (h p (List.mem_cons_self ..)).dot_not_mem
    cases path with
    | nil => exact splitAtChar_of_not_mem hp
    | cons q path =>
      have hrest := ih (List.cons_ne_nil _ _) fun r hr => h r (List.mem_cons_of_mem _ hr)
      rw [joinWith_cons, String.toList_append, String.toList_append, List.append_assoc]
      exact (splitAtChar_append hp _).trans (congrArg _ hrest)

theorem segments_joinWith {path : List String} (hpath : path ≠ [])
    (h : ∀ p ∈ path, IsPlainName p) : Text.segments (Text.joinWith "." path) = path := by
  rw [Text.segments, splitAtChar_joinWith hpath h, List.map_map]
  simp [Function.comp_def]

theorem isDottedName_joinWith {path : List String} (hpath : path ≠ [])
    (h : ∀ p ∈ path, IsPlainName p) : IsDottedName (Text.joinWith "." path) := by
  intro part hpart
  rw [splitAtChar_joinWith hpath h] at hpart
  obtain ⟨p, hp, rfl⟩ := List.mem_map.1 hpart
  exact h p hp

theorem Accessed.print {path : List String} (h : Accessed e path m) (hpath : path ≠ []) :
    m.print = memberText .base e ++ ("." ++ Text.joinWith "." path) := by
  induction h with
  | done => exact absurd rfl hpath
  | @step e m p path l h ih =>
    have hprint : (indexed l e p).print = memberText .base e ++ ("." ++ p) := by
      rw [TypeExpr.print, memberText, String.append_assoc]
    cases path with
    | nil =>
      cases h
      exact hprint
    | cons q path =>
      have hbase : memberText .base (.indexed l e p) = (indexed l e p).print := rfl
      rw [ih (List.cons_ne_nil _ _), hbase, hprint, joinWith_cons]
      simp only [String.append_assoc]

theorem Accessed.nesting {path : List String} (h : Accessed e path m) (hpath : path ≠ []) :
    m.nesting = e.nesting + (needsParens .base e).toNat := by
  induction h with
  | done => exact absurd rfl hpath
  | @step e m p path l h ih =>
    cases path with
    | nil =>
      cases h
      rw [TypeExpr.nesting]
    | cons q path =>
      rw [ih (List.cons_ne_nil _ _), TypeExpr.nesting]
      rfl

theorem Accessed.needsParens {path : List String} (h : Accessed e path m) (hpath : path ≠ [])
    (position : Position) : TypeExpr.needsParens position m = false := by
  induction h with
  | done => exact absurd rfl hpath
  | @step e m p path l h ih =>
    cases path with
    | nil =>
      cases h
      cases position <;> rfl
    | cons q path => exact ih (List.cons_ne_nil _ _)

theorem Written.access {ts : List Token} {path : List String} (hpath : path ≠ [])
    (hnames : ∀ p ∈ path, IsPlainName p) (h : Written Free (memberText .base e) ts)
    (hm : Accessed e path m) :
    Written Ends m.print (ts ++ [.dot, .name (Text.joinWith "." path)]) := by
  have hname := Written.name (isDottedName_joinWith hpath hnames)
  have hdot : Written Ends ("." ++ Text.joinWith "." path) [.dot, .name (Text.joinWith "." path)] :=
    (Written.dot : Written _ "." [.dot]).append hname fun rest _ => by
      obtain ⟨c, cs, -, -, htext, hstart, -⟩ := (isDottedName_joinWith hpath hnames).cons
      rw [htext]
      simpa using ne_of_test hstart (by decide)
  rw [hm.print hpath]
  exact h.free_append hdot

theorem Shows.access {path : List String} (hpath : path ≠ []) (hnames : ∀ p ∈ path, IsPlainName p)
    (h : Shows Free d .primary .closed (memberText .base e) e) (hm : Accessed e path m) :
    Shows Ends d .post .closed m.print m := by
  obtain ⟨ts, hspells, hwritten⟩ := h
  refine ⟨ts ++ [.dot, .name (Text.joinWith "." path)], ?_, hwritten.access hpath hnames hm⟩
  have hsegments : [Text.joinWith "." path].flatMap Text.segments = path := by
    simp [segments_joinWith hpath hnames]
  exact .access [Text.joinWith "." path] (List.cons_ne_nil _ _) hspells (by rwa [hsegments])

end Paths

section Items
variable {α : Type} {P : List Token → α → Prop}

theorem exists_items {as : List α} (h : ∀ a ∈ as, ∃ ts, P ts a) :
    ∃ items : List (List Token × α), items.map (·.2) = as ∧ ∀ i ∈ items, P i.1 i.2 := by
  induction as with
  | nil => exact ⟨[], rfl, by simp⟩
  | cons a as ih =>
    obtain ⟨ts, hts⟩ := h a (List.mem_cons_self ..)
    obtain ⟨items, rfl, hitems⟩ := ih fun b hb => h b (List.mem_cons_of_mem _ hb)
    refine ⟨(ts, a) :: items, rfl, fun i hi => ?_⟩
    rcases List.mem_cons.1 hi with rfl | hi
    · exact hts
    · exact hitems i hi

theorem exists_init {as : List α} (h : 2 ≤ as.length) :
    ∃ init last, as = init ++ [last] ∧ init ≠ [] := by
  rcases List.eq_nil_or_concat as with rfl | ⟨init, last, rfl⟩
  · cases h
  · refine ⟨init, last, List.concat_eq_append, ?_⟩
    rintro rfl
    exact absurd h (by simp)

end Items

structure Printed (e : TypeExpr) : Prop where
  pos : 1 ≤ nesting e
  argument : ∀ d, nesting e ≤ d → Shows Ends d .type .closed e.print e
  unionMember : ∀ d, nesting e + (needsParens .unionMember e).toNat ≤ d + 1 →
    Shows Ends d .inter .closed (memberText .unionMember e) e
  intersectionMember : ∀ d, nesting e + (needsParens .intersectionMember e).toNat ≤ d + 1 →
    Shows Ends d .post .closed (memberText .intersectionMember e) e
  base : ∀ d path m, path ≠ [] → (∀ p ∈ path, IsPlainName p) → Accessed e path m →
    nesting m ≤ d + 1 → Shows Ends d .post .closed m.print m

namespace Printed

section Places
variable (pos : 1 ≤ nesting e)

include pos in
theorem argument_of (h : ∀ d, nesting e ≤ d + 1 → Shows Ends d .inter b e.print e) (d : Nat)
    (hd : nesting e ≤ d) : Shows Ends d .type .closed e.print e := by
  obtain ⟨d, rfl⟩ := Nat.exists_eq_add_of_le' (Nat.le_trans pos hd)
  exact (h d hd).lift .single

theorem member_parens {position : Position}
    (argument : ∀ d, nesting e ≤ d → Shows Ends d .type .closed e.print e)
    (h : needsParens position e) (hd : nesting e + (needsParens position e).toNat ≤ d + 1) :
    Shows Free d .primary .closed (memberText position e) e := by
  rw [memberText_parens h]
  rw [h] at hd
  exact (argument d (Nat.le_of_succ_le_succ hd)).parens

include pos in
theorem of_places (argument : ∀ d, nesting e ≤ d → Shows Ends d .type .closed e.print e)
    (unionMember : needsParens .unionMember e = false → ∀ d, nesting e ≤ d + 1 →
      Shows Ends d .inter .closed e.print e)
    (intersectionMember : needsParens .intersectionMember e = false → ∀ d, nesting e ≤ d + 1 →
      Shows Ends d .post .closed e.print e)
    (base : needsParens .base e = false → ∀ d path m, path ≠ [] → (∀ p ∈ path, IsPlainName p) →
      Accessed e path m → nesting m ≤ d + 1 → Shows Ends d .post .closed m.print m) :
    Printed e where
  pos := pos
  argument := argument
  unionMember d hd := by
    cases h : needsParens .unionMember e with
    | true => exact (member_parens argument h hd).inter.ends
    | false =>
      rw [memberText_bare h]
      exact unionMember h d (by simpa [h] using hd)
  intersectionMember d hd := by
    cases h : needsParens .intersectionMember e with
    | true => exact (member_parens argument h hd).post.ends
    | false =>
      rw [memberText_bare h]
      exact intersectionMember h d (by simpa [h] using hd)
  base d path m hpath hnames hm hd := by
    cases h : needsParens .base e with
    | true =>
      rw [hm.nesting hpath] at hd
      exact (member_parens argument h hd).access hpath hnames hm
    | false => exact base h d path m hpath hnames hm hd

include pos in
theorem of_primary (h : ∀ d, nesting e ≤ d + 1 → Shows Ends d .primary .closed e.print e)
    (hbase : needsParens .base e = false → ∀ d, nesting e ≤ d + 1 →
      Shows Free d .primary .closed e.print e) : Printed e := by
  refine of_places pos (argument_of pos fun d hd => (h d hd).inter)
    (fun _ d hd => (h d hd).inter) (fun _ d hd => (h d hd).post)
    fun hbare d path m hpath hnames hm hd => ?_
  rw [hm.nesting hpath, hbare] at hd
  have hfree := hbase hbare d hd
  rw [← memberText_bare hbare] at hfree
  exact hfree.access hpath hnames hm

end Places

section Leaves

theorem unknown (l : Location) : Printed (.named l "?") := by
  refine of_primary (Nat.le_refl 1) (fun d _ => ⟨[.question], .unknown l, ?_⟩) fun h => nomatch h
  have hquestion : Written Free "?" [.question] := Written.symbol '?' (by decide) rfl
  exact hquestion.mono fun _ _ => trivial

theorem named {name : String} (l : Location) (h : IsTypeName name) : Printed (.named l name) :=
  of_primary (Nat.le_refl 1) (fun _ _ => ⟨[.name name], .named l h.2, .name h.1⟩)
    fun h => nomatch h

theorem keyword {name : String} {value : Literal} (l : Location) (hname : IsPlainName name)
    (h : (name, value) ∈ keywords) (hprint : value.print = name)
    (hparens : needsParens .base (.literal l value)) : Printed (.literal l value) := by
  refine of_primary (Nat.le_refl 1) (fun d _ => ⟨[.name name], .keyword l h, ?_⟩)
    fun hbare => by rw [hparens] at hbare; cases hbare
  rw [print, hprint]
  exact .name hname.dotted

theorem literal {value : Literal} (l : Location) (h : value.WellFormed) :
    Printed (.literal l value) := by
  cases value with
  | null => exact keyword l (by decide) (by decide) rfl rfl
  | undefined => exact keyword l (by decide) (by decide) rfl rfl
  | string value =>
    have hquoted (d : Nat) :
        Shows Free d .primary .closed (TypeExpr.literal l (.string value)).print _ :=
      ⟨[.quoted value], .quoted l value, .quoted value⟩
    exact of_primary (Nat.le_refl 1) (fun d _ => (hquoted d).ends) fun _ d _ => hquoted d
  | other text =>
    rcases h with rfl | rfl | hnumber
    · exact keyword l (by decide) (by decide) rfl rfl
    · exact keyword l (by decide) (by decide) rfl rfl
    · exact of_primary (Nat.le_refl 1)
        (fun _ _ => ⟨[.number text], .number l text, .number hnumber⟩) fun h => nomatch h

end Leaves

section Brackets

theorem exists_parts {γ : Type} {typeOf : γ → TypeExpr} {parts : List γ}
    (h : ∀ p ∈ parts, Printed (typeOf p)) (hd : ∀ p ∈ parts, nesting (typeOf p) ≤ d) :
    ∃ items : List (List Token × γ), items.map (·.2) = parts ∧
      (∀ i ∈ items, i.2 ∈ parts) ∧ (∀ i ∈ items, Spells d .type .closed i.1 (typeOf i.2)) ∧
      ∀ i ∈ items, Written Ends (typeOf i.2).print i.1 := by
  obtain ⟨items, rfl, hitems⟩ := exists_items fun p hp => (h p hp).argument d (hd p hp)
  exact ⟨items, rfl, fun i hi => List.mem_map_of_mem hi, fun i hi => (hitems i hi).1,
    fun i hi => (hitems i hi).2⟩

theorem generic {name : String} {args : List TypeExpr} (l : Location) (h : IsTypeName name)
    (hargs : ∀ a ∈ args, Printed a) : Printed (.generic l name args) := by
  have hgeneric (d : Nat) (hd : nesting (.generic l name args) ≤ d + 1) :
      Shows Free d .primary .closed (TypeExpr.generic l name args).print
        (.generic l name args) := by
    rw [nesting] at hd
    obtain ⟨items, rfl, -, hspells, hwritten⟩ := exists_parts (d := d) hargs fun a ha =>
      Nat.le_trans (nesting_le_nestingAll .argument ha) (Nat.le_of_succ_le_succ hd)
    refine ⟨_, .generic l h.2 items hspells, ?_⟩
    rw [print, printAll_eq_map, List.map_map]
    exact .generic h.1 hwritten
  exact of_primary (Nat.le_add_left ..) (fun d hd => (hgeneric d hd).ends) fun _ => hgeneric

theorem record {fields : List (Field TypeExpr)} (l : Location)
    (names : ∀ f ∈ fields, IsPlainName f.name) (hfields : ∀ f ∈ fields, Printed f.type) :
    Printed (.record l fields) := by
  have hrecord (d : Nat) (hd : nesting (.record l fields) ≤ d + 1) :
      Shows Free d .primary .closed (TypeExpr.record l fields).print (.record l fields) := by
    rw [nesting] at hd
    obtain ⟨items, rfl, hmem, hspells, hwritten⟩ := exists_parts (d := d) hfields fun f hf =>
      Nat.le_trans (nesting_le_nestingFields hf) (Nat.le_of_succ_le_succ hd)
    have hnames (i) (hi : i ∈ items) : IsPlainName i.2.name := names i.2 (hmem i hi)
    refine ⟨_, .record l items false (fun i hi => (hnames i hi).isDotted) hspells, ?_⟩
    rw [print, printFields_eq_map, List.map_map]
    exact .record fun i hi => .field (hnames i hi) (hwritten i hi)
  exact of_primary (Nat.le_add_left ..) (fun d hd => (hrecord d hd).ends) fun _ => hrecord

end Brackets

section Arrows

theorem of_arrow (pos : 1 ≤ nesting e)
    (h : ∀ d, nesting e ≤ d + 1 → Shows Ends d .primary .result e.print e)
    (hparens : ∀ position, position ≠ .argument → needsParens position e) : Printed e := by
  refine of_places pos (argument_of pos fun d hd => (h d hd).inter) ?_ ?_ ?_
  all_goals
    intro hbare
    rw [hparens _ (by decide)] at hbare
    cases hbare

theorem function {params : List (FunctionParam TypeExpr)} {result : TypeExpr} (l : Location)
    (names : ∀ p ∈ params, p.Spelled) (hparams : ∀ p ∈ params, Printed p.type)
    (hresult : Printed result) : Printed (.function l params result) := by
  refine of_arrow (Nat.le_add_left ..) (fun d hd => ?_) fun position hposition => ?_
  · rw [nesting] at hd
    have hle := Nat.max_le.1 (Nat.le_of_succ_le_succ hd)
    obtain ⟨items, rfl, hmem, hspells, hwritten⟩ := exists_parts (d := d) hparams fun p hp =>
      Nat.le_trans (nesting_le_nestingFunctionParams hp) hle.1
    obtain ⟨ts, hresult, htext⟩ := hresult.argument d hle.2
    have hnames (i) (hi : i ∈ items) : i.2.Spelled := names i.2 (hmem i hi)
    refine ⟨_, .function l items false (fun i hi => (hnames i hi).named) hspells hresult, ?_⟩
    rw [print, printFunctionParams_eq_map, List.map_map]
    exact .function (fun i hi => .functionParam (hnames i hi).2 (hwritten i hi)) htext
  · cases position <;> first | rfl | exact absurd rfl hposition

theorem template {params : List (TemplateParam TypeExpr)} {result : TypeExpr} (l : Location)
    (names : ∀ p ∈ params, p.Spelled) (hparams : ∀ p ∈ params, Printed p.type)
    (hresult : Printed result) : Printed (.template l params result) := by
  refine of_arrow (Nat.le_add_left ..) (fun d hd => ?_) fun position hposition => ?_
  · rw [nesting] at hd
    have hle := Nat.max_le.1 (Nat.le_of_succ_le_succ hd)
    obtain ⟨items, rfl, hmem, hspells, hwritten⟩ := exists_parts (d := d) hparams fun p hp =>
      Nat.le_trans (nesting_le_nestingTemplateParams hp) hle.1
    obtain ⟨ts, hresult, htext⟩ := hresult.argument d hle.2
    have hnames (i) (hi : i ∈ items) : i.2.Spelled := names i.2 (hmem i hi)
    refine ⟨_, .template l items false (fun i hi => (hnames i hi).named) hspells hresult, ?_⟩
    rw [print, printTemplateParams_eq_map, List.map_map]
    exact .template (fun i hi => .templateParam (hnames i hi) (hwritten i hi)) htext
  · cases position <;> first | rfl | exact absurd rfl hposition

end Arrows

section Operators

theorem union {members : List TypeExpr} (l : Location) (h : 2 ≤ members.length)
    (hmembers : ∀ e ∈ members, Printed e) : Printed (.union l members) := by
  have hle {e} (he : e ∈ members) := nesting_le_nestingAll .unionMember he
  have hpos : 1 ≤ nesting (.union l members) := by
    have hhead := List.getElem_mem (Nat.lt_of_lt_of_le Nat.two_pos h)
    have hfirst := (hmembers _ hhead).pos
    have hmember := hle hhead
    rw [nesting]
    omega
  refine of_places hpos (fun d hd => ?_) Bool.noConfusion Bool.noConfusion Bool.noConfusion
  obtain ⟨d, rfl⟩ := Nat.exists_eq_add_of_le' (Nat.le_trans hpos hd)
  rw [nesting] at hd
  obtain ⟨items, rfl, hitems⟩ := exists_items fun e he =>
    (hmembers e he).unionMember d (Nat.le_trans (hle he) hd)
  obtain ⟨init, last, rfl, hinit⟩ := exists_init (by simpa using h)
  have hspells : Spells (d + 1) .type .closed _ _ :=
    .union l init hinit (fun i hi => (hitems i (by simp [hi])).1) (hitems last (by simp)).1
  have hwritten := Written.union fun i hi => (hitems i hi).2
  rw [print, printAll_eq_map, List.map_map]
  exact ⟨_, by simpa using hspells, by simpa [Function.comp_def] using hwritten⟩

theorem intersection {members : List TypeExpr} (l : Location) (h : 2 ≤ members.length)
    (hmembers : ∀ e ∈ members, Printed e) : Printed (.intersection l members) := by
  have hle {e} (he : e ∈ members) := nesting_le_nestingAll .intersectionMember he
  have hpos : 1 ≤ nesting (.intersection l members) := by
    have hhead := List.getElem_mem (Nat.lt_of_lt_of_le Nat.two_pos h)
    have hfirst := (hmembers _ hhead).pos
    have hmember := hle hhead
    rw [nesting]
    omega
  have hinter (d : Nat) (hd : nesting (.intersection l members) ≤ d + 1) :
      Shows Ends d .inter .closed (TypeExpr.intersection l members).print
        (.intersection l members) := by
    rw [nesting] at hd
    obtain ⟨items, rfl, hitems⟩ := exists_items fun e he =>
      (hmembers e he).intersectionMember d (Nat.le_trans (hle he) hd)
    obtain ⟨init, last, rfl, hinit⟩ := exists_init (by simpa using h)
    have hspells : Spells d .inter .closed _ _ :=
      .intersection l init hinit (fun i hi => (hitems i (by simp [hi])).1)
        (hitems last (by simp)).1
    have hwritten := Written.intersection fun i hi => (hitems i hi).2
    rw [print, printAll_eq_map, List.map_map]
    exact ⟨_, by simpa using hspells, by simpa [Function.comp_def] using hwritten⟩
  exact of_places hpos (argument_of hpos hinter) (fun _ => hinter) Bool.noConfusion
    Bool.noConfusion

theorem indexed {base : TypeExpr} {property : String} (l : Location) (h : IsPlainName property)
    (hbase : Printed base) : Printed (.indexed l base property) := by
  have hpos : 1 ≤ nesting (.indexed l base property) := by
    have hbasePos := hbase.pos
    rw [nesting]
    omega
  have hpost (d : Nat) (hd : nesting (.indexed l base property) ≤ d + 1) :
      Shows Ends d .post .closed (TypeExpr.indexed l base property).print
        (.indexed l base property) :=
    hbase.base d [property] _ (List.cons_ne_nil _ _) (by simpa using h) (.step l (.done _)) hd
  refine of_places hpos (argument_of hpos fun d hd => (hpost d hd).lift .operand)
    (fun _ d hd => (hpost d hd).lift .operand) (fun _ => hpost)
    fun _ d path m hpath hnames hm hd => ?_
  -- Further properties are added to the path, so the base is met with the path as a whole.
  exact hbase.base d (property :: path) m (List.cons_ne_nil _ _)
    (by simpa using ⟨h, hnames⟩) (.step l hm) hd

end Operators

end Printed

theorem WellFormed.printed (h : WellFormed e) : Printed e := by
  induction h with
  | unknown l => exact .unknown l
  | named l h => exact .named l h
  | generic l h _ ih => exact .generic l h ih
  | union l h _ ih => exact .union l h ih
  | intersection l h _ ih => exact .intersection l h ih
  | record l names _ ih => exact .record l names ih
  | template l names _ _ ih ihr => exact .template l names ih ihr
  | function l names _ _ ih ihr => exact .function l names ih ihr
  | indexed l h _ ih => exact .indexed l h ih
  | literal l h => exact .literal l h

theorem parse_of_written {text : String} {ts : List Token}
    (hspells : Spells nestingLimit .type .closed ts e) (hwritten : Written Ends text ts)
    (file : Option String) : ∃ m, parse text file = .ok m ∧ same m e := by
  obtain ⟨placed, hscan, rfl⟩ := hwritten.exists_scan
  obtain ⟨m, hm, hsame⟩ := ofTokens_of_spells hspells
  refine ⟨m, ?_, hsame⟩
  rw [parse, hscan]
  exact hm

theorem parse_print (h : WellFormed e) (hnesting : nesting e ≤ nestingLimit)
    (file : Option String) : ∃ m, parse e.print file = .ok m ∧ same m e := by
  obtain ⟨ts, hspells, hwritten⟩ := h.printed.argument nestingLimit hnesting
  exact parse_of_written hspells hwritten file

/-- Reading a printed expression reports nothing and gives the expression back, up to the places
of its parts. -/
theorem parseReporting_print (n : TypeExpr) (h : WellFormed n) (hn : nesting n ≤ nestingLimit)
    (file : Option String) (report : Report) :
    ∃ m, parseReporting n.print file report = (some m, report) ∧ m.same n ∧ m.print = n.print := by
  obtain ⟨m, hm, hsame⟩ := parse_print h hn file
  refine ⟨m, ?_, hsame, print_eq_of_same hsame⟩
  rw [parseReporting, hm]

def sampleTemplate : TypeExpr :=
  let l := Location.unknown
  let choice := union l [literal l (.string "it's"), intersection l [named l "?", literal l .null]]
  .template l
    [⟨"ariaLabel", "@aria-label", l, .htmlAttribute, false, indexed l (indexed l choice "a") "b"⟩]
    (.function l [⟨"rest", "rest", l, true, indexed l (literal l (.other "-1.5")) "c"⟩]
      (union l [.function l [] (named l "d.e"), named l "f"]))

theorem parseReporting_print_sample :
    WellFormed sampleTemplate ∧ nesting sampleTemplate ≤ nestingLimit ∧
      ∃ m, parseReporting sampleTemplate.print none .empty = (some m, .empty) ∧
        m.same sampleTemplate ∧ m.print = sampleTemplate.print := by
  have hletter : ∀ text ∈ ["a", "b", "c", "d", "e", "f"], IsPlainName text := by decide
  have hdotted : IsDottedName (Text.joinWith "." ["d", "e"]) :=
    isDottedName_joinWith (List.cons_ne_nil _ _) fun p hp => hletter p (by revert p; decide)
  have hnumber : IsNumber "-1.5" := ⟨⟨.number "-1.5", 0, 4⟩, by decide, rfl⟩
  have hchoice : WellFormed (union .unknown
      [literal .unknown (.string "it's"), intersection .unknown [named .unknown "?",
        literal .unknown .null]]) :=
    .union _ (by decide) (by
      simp only [List.forall_mem_cons]
      refine ⟨.literal _ trivial, .intersection _ (by decide) ?_, by simp⟩
      simp only [List.forall_mem_cons]
      exact ⟨.unknown _, .literal _ trivial, by simp⟩)
  have hresult : WellFormed (union .unknown
      [.function .unknown [] (named .unknown "d.e"), named .unknown "f"]) :=
    .union _ (by decide) (by
      simp only [List.forall_mem_cons]
      exact ⟨.function _ (by simp) (by simp) (.named _ ⟨hdotted, by decide⟩),
        .named _ ⟨(hletter "f" (by decide)).dotted, by decide⟩, by simp⟩)
  have hwf : WellFormed sampleTemplate := by
    refine .template _ ?_ ?_ (.function _ ?_ ?_ hresult)
    · simp only [List.forall_mem_singleton]
      exact ⟨"aria-label", rfl, by decide, by decide⟩
    · simp only [List.forall_mem_singleton]
      exact .indexed _ (hletter "b" (by decide)) (.indexed _ (hletter "a" (by decide)) hchoice)
    · simp only [List.forall_mem_singleton]
      exact ⟨rfl, by decide⟩
    · simp only [List.forall_mem_singleton]
      exact .indexed _ (hletter "c" (by decide)) (.literal _ (.inr (.inr hnumber)))
  have hn : nesting sampleTemplate ≤ nestingLimit := by decide
  exact ⟨hwf, hn, parseReporting_print sampleTemplate hwf hn none .empty⟩

end TemplateCheck.TypeExpr
