import TemplateCheck.Proofs.TypeExpr.Places

/-! Where the expressions in a text are located, and where its fault is if it is none: in the text,
between characters. The parts of an expression are located inside it, one after the other. -/

namespace TemplateCheck
open TypeExpr

/-- The range lies in the text, and does not divide a character. -/
structure Location.Lies (text : String) (file : Option String) (l : Location) : Prop where
  file : l.file = file
  start_le : l.start ≤ l.stop
  stop_le : l.stop ≤ text.utf8ByteSize
  start_valid : String.Pos.Raw.IsValid text ⟨l.start⟩
  stop_valid : String.Pos.Raw.IsValid text ⟨l.stop⟩

namespace TypeExpr
variable {text : String} {file : Option String} {l m : Location} {us vs tokens : List PlacedToken}
  {ls : List Location} {e n : TypeExpr}

/-- The expression and the names and types in it lie in the text; these lie inside of it, and each
ends before the next one starts. -/
structure Located (text : String) (file : Option String) (e : TypeExpr) : Prop where
  lies : e.location.Lies text file
  inside : ∀ l ∈ e.pieces, l.Lies text file ∧ e.location.start ≤ l.start ∧ l.stop ≤ e.location.stop
  ordered : e.pieces.Pairwise fun l m => l.stop ≤ m.start

section Ranges
variable {front middle rest : List Char}

theorem isValid_byteCount (h : text.toList = front ++ rest) :
    String.Pos.Raw.IsValid text ⟨byteCount front⟩ := by
  refine String.Pos.Raw.isValid_iff_exists_append.2 ⟨.ofList front, .ofList rest, ?_, ?_⟩
  · rw [← String.ofList_append, ← h, String.ofList_toList]
  · rw [String.rawEndPos_ofList, utf8Len_eq_byteCount]

theorem lies_of_split (h : text.toList = front ++ (middle ++ rest)) (hfile : l.file = file)
    (hstart : byteCount front = l.start) (hstop : l.start + byteCount middle = l.stop) :
    l.Lies text file where
  file := hfile
  start_le := Nat.le.intro hstop
  stop_le := by
    rw [← String.utf8Len_toList, h, utf8Len_eq_byteCount, byteCount_append, byteCount_append,
      hstart, ← Nat.add_assoc, hstop]
    exact Nat.le_add_right ..
  start_valid := hstart ▸ isValid_byteCount h
  stop_valid := by
    have hsplit : text.toList = front ++ middle ++ rest := by rw [h, List.append_assoc]
    rw [← hstop, ← hstart, ← byteCount_append]
    exact isValid_byteCount hsplit

end Ranges

theorem Covers.lies (h : Covers file vs l) (htokens : Tokenized 0 text.toList tokens)
    (hvs : vs <:+: tokens) : l.Lies text file := by
  obtain ⟨front, middle, rest, hsplit, hstart, hstop, -⟩ := htokens.excerpt hvs h.start h.stop
  exact lies_of_split hsplit h.file (by rw [← hstart, Nat.zero_add]) hstop

theorem Covers.first_mem (h : Covers file vs l) : ∃ p ∈ vs, p.start = l.start := by
  obtain ⟨p, hp, hstart⟩ := Option.map_eq_some_iff.1 h.start
  exact ⟨p, List.mem_of_mem_head? hp, hstart⟩

theorem Covers.last_mem (h : Covers file vs l) : ∃ p ∈ vs, p.stop = l.stop := by
  obtain ⟨p, hp, hstop⟩ := Option.map_eq_some_iff.1 h.stop
  exact ⟨p, List.mem_of_getLast? hp, hstop⟩

theorem Row.ordered (h : Row file vs ls) (hvs : InOrder vs) :
    ls.Pairwise (fun l m => l.stop ≤ m.start) ∧ ∀ l ∈ ls, ∃ us, us <:+: vs ∧ Covers file us l := by
  induction h with
  | nil => exact ⟨.nil, List.forall_mem_nil _⟩
  | @cons gap us rest l ls hl _ ih =>
    have hrest : rest <:+: gap ++ (us ++ rest) :=
      ((List.suffix_append us rest).trans (List.suffix_append gap _)).isInfix
    have hus : us <:+: gap ++ (us ++ rest) := ⟨gap, rest, List.append_assoc ..⟩
    obtain ⟨hordered, hcovers⟩ := ih (hvs.within hrest)
    constructor
    · refine List.pairwise_cons.2 ⟨fun m hm => ?_, hordered⟩
      obtain ⟨ms, hms, hcovered⟩ := hcovers m hm
      obtain ⟨p, hp, hstop⟩ := hl.last_mem
      obtain ⟨q, hq, hstart⟩ := hcovered.first_mem
      rw [← hstop, ← hstart]
      have hapart := (hvs.within (List.suffix_append gap (us ++ rest)).isInfix).apart
      exact (List.pairwise_append.1 hapart).2.2 p hp q (hms.subset hq)
    · refine List.forall_mem_cons.2 ⟨⟨us, hus, hl⟩, fun m hm => ?_⟩
      obtain ⟨ms, hms, hcovered⟩ := hcovers m hm
      exact ⟨ms, hms.trans hrest, hcovered⟩

theorem Sits.located {opens closes : List PlacedToken} (h : Sits file opens vs closes e)
    (htokens : Tokenized 0 text.toList tokens) (hvs : vs <:+: tokens) : Located text file e where
  lies := h.covers.lies htokens hvs
  inside l hl := by
    obtain ⟨us, hus, hcovers⟩ := (h.row.ordered (htokens.inOrder.within hvs)).2 l hl
    obtain ⟨p, hp, hstart⟩ := hcovers.first_mem
    obtain ⟨q, hq, hstop⟩ := hcovers.last_mem
    have hbounds {p : PlacedToken} (hp : p ∈ us) :=
      (htokens.inOrder.within hvs).bounds h.covers.start h.covers.stop (hus.subset hp)
    exact ⟨hcovers.lies htokens (hus.trans hvs), hstart ▸ (hbounds hp).1, hstop ▸ (hbounds hq).2⟩
  ordered := (h.row.ordered (htokens.inOrder.within hvs)).1

def Cursor.Holds (c : Cursor) (fault : SyntaxError) : Prop :=
  (fault.start = c.size ∧ fault.stop = c.size) ∨
    ∃ p ∈ c.tokens, fault.start = p.start ∧ fault.stop = p.stop

/-- The parser passes tokens, or blames one that is left to read or the end of the text. -/
def Blames {α : Type} (p : Parse α) : Prop :=
  ∀ c, (∀ a c', p.run c = .ok (a, c') → c'.tokens <:+ c.tokens ∧ c'.size = c.size) ∧
    ∀ fault, p.run c = .error fault → c.Holds fault

namespace Blames
variable {α β : Type} {p : Parse α} {f : α → Parse β}

theorem ret (a : α) : Blames (pure a) := by
  intro c
  constructor
  · rintro a c' ⟨⟩
    exact ⟨List.suffix_refl _, rfl⟩
  · rintro fault ⟨⟩

theorem bind (hp : Blames p) (hf : ∀ a, Blames (f a)) : Blames (p >>= f) := by
  intro c
  rw [StateT.run_bind]
  cases hfirst : p.run c with
  | error fault =>
    constructor
    · rintro b c' ⟨⟩
    · rintro _ ⟨⟩
      exact (hp c).2 fault hfirst
  | ok result =>
    obtain ⟨a, c₁⟩ := result
    obtain ⟨htokens, hsize⟩ := (hp c).1 a c₁ hfirst
    constructor
    · intro b c₂ h
      obtain ⟨htokens', hsize'⟩ := (hf a c₁).1 b c₂ h
      exact ⟨htokens'.trans htokens, hsize'.trans hsize⟩
    · intro fault h
      refine ((hf a c₁).2 fault h).imp (fun hend => hsize ▸ hend) ?_
      rintro ⟨p, hp, hplace⟩
      exact ⟨p, htokens.subset hp, hplace⟩

section Tokens

theorem getState : Blames (get : Parse Cursor) := by
  intro c
  constructor
  · rintro a c' ⟨⟩
    exact ⟨List.suffix_refl _, rfl⟩
  · rintro fault ⟨⟩

theorem locate (start stop : Nat) : Blames (Parse.locate start stop) := getState.bind fun _ => ret _

theorem lookahead (ahead : Nat) : Blames (Parse.lookahead ahead) := getState.bind fun _ => ret _

theorem advance : Blames Parse.advance := by
  intro c
  simp only [Parse.advance, StateT.run_bind, StateT.run_get, pure_bind]
  split
  next => exact ret _ c
  next next rest htokens =>
    constructor
    · rintro a c' ⟨⟩
      rw [htokens]
      exact ⟨List.suffix_cons next rest, rfl⟩
    · rintro fault ⟨⟩

theorem fails (fault : SyntaxFault) : Blames (Parse.failWith fault : Parse α) := by
  intro c
  constructor
  · rintro a c' ⟨⟩
  · rintro e h
    simp only [Parse.failWith, Parse.here, StateT.run_bind, StateT.run_get, pure_bind] at h
    cases htokens : c.tokens with
    | nil =>
      rw [htokens] at h
      cases h
      exact .inl ⟨rfl, rfl⟩
    | cons next rest =>
      rw [htokens] at h
      cases h
      exact .inr ⟨next, by simp [htokens], rfl, rfl⟩

theorem fail (expected : Expected) : Blames (Parse.fail expected : Parse α) :=
  (lookahead 0).bind fun _ => fails _

theorem eat (token : Token) : Blames (Parse.eat token) := by
  refine (lookahead 0).bind fun found => ?_
  split
  · exact advance.bind fun _ => ret true
  · exact ret false

theorem expect (token : Token) (expected : Expected) : Blames (Parse.expect token expected) := by
  refine (lookahead 0).bind fun found => ?_
  split
  · exact advance
  · exact fail expected

theorem simpleName (expected : Expected) : Blames (Parse.simpleName expected) := by
  refine (lookahead 0).bind fun found => ?_
  split
  next text =>
    split
    · exact fail expected
    · exact advance.bind fun _ => ret _
  next => exact fail expected

end Tokens

section Rows

theorem separated {separator : Token} (hp : Blames p) (fuel : Nat) :
    Blames (Parse.separated separator p fuel) := by
  induction fuel with
  | zero => exact ret []
  | succ fuel ih =>
    refine (eat separator).bind fun found => ?_
    split
    · exact hp.bind fun _ => ih.bind fun _ => ret _
    · exact ret []

theorem entries {close : Token} (hp : Blames p) (fuel : Nat) :
    Blames (Parse.entries close p fuel) := by
  induction fuel with
  | zero => exact ret []
  | succ fuel ih =>
    refine (lookahead 0).bind fun found => ?_
    split
    · exact ret []
    · refine hp.bind fun _ => (eat .comma).bind fun more => ?_
      split
      · exact ih.bind fun _ => ret _
      · exact ret _

theorem chain {separator : Token} {make : Location → List TypeExpr → TypeExpr} {fuel : Nat}
    {operand : Parse TypeExpr} (h : Blames operand) :
    Blames (Parse.chain fuel separator make operand) := by
  refine h.bind fun first => (h.separated fuel).bind fun others => ?_
  split
  · exact ret first
  · exact getState.bind fun _ => (locate _ _).bind fun _ => ret _

theorem properties (fuel : Nat) (e : TypeExpr) : Blames (Parse.properties fuel e) := by
  induction fuel generalizing e with
  | zero => exact ret e
  | succ fuel ih =>
    refine (eat .dot).bind fun found => ?_
    split
    · refine (lookahead 0).bind fun name => ?_
      split
      · exact advance.bind fun _ => (locate _ _).bind fun _ => ih _
      · exact fail _
    · exact ret e

end Rows

section Rules
variable {type : Parse TypeExpr} {fuel : Nat}

theorem templateParamName : Blames Parse.templateParamName := by
  refine (lookahead 0).bind fun found => ?_
  split
  · split
    · exact fail _
    · exact ret _
  · exact ret _
  · exact fail _

theorem opensFunction : Blames Parse.opensFunction := by
  refine (lookahead 1).bind fun found => ?_
  split
  · exact ret _
  · exact ret _
  · exact (lookahead 2).bind fun _ => ret _
  · exact ret _

variable (htype : Blames type)
include htype

theorem field : Blames (Parse.field type) :=
  (simpleName _).bind fun _ => (eat _).bind fun _ => (expect _ _).bind fun _ =>
    htype.bind fun _ => ret _

theorem recordType : Blames (Parse.recordType fuel type) :=
  advance.bind fun _ => ((field htype).entries fuel).bind fun _ => (expect _ _).bind fun _ =>
    (locate _ _).bind fun _ => ret _

theorem functionParam : Blames (Parse.functionParam type) :=
  (eat _).bind fun _ => (simpleName _).bind fun _ => (expect _ _).bind fun _ =>
    htype.bind fun _ => ret _

theorem resultType : Blames (Parse.resultType type) :=
  (expect _ _).bind fun _ => (expect _ _).bind fun _ => htype

theorem functionType : Blames (Parse.functionType fuel type) :=
  advance.bind fun _ => ((functionParam htype).entries fuel).bind fun _ =>
    (resultType htype).bind fun _ => (locate _ _).bind fun _ => ret _

theorem templateParam : Blames (Parse.templateParam type) :=
  templateParamName.bind fun _ => advance.bind fun _ => (eat _).bind fun _ =>
    (expect _ _).bind fun _ => htype.bind fun _ => ret _

theorem templateType : Blames (Parse.templateType fuel type) :=
  advance.bind fun _ => advance.bind fun _ => ((templateParam htype).entries fuel).bind fun _ =>
    (resultType htype).bind fun _ => (locate _ _).bind fun _ => ret _

theorem genericArguments : Blames (Parse.genericArguments fuel type) := by
  refine (lookahead 0).bind fun found => ?_
  split
  · exact ret []
  · exact htype.bind fun _ => (htype.separated fuel).bind fun _ => ret _

theorem namedType (name : String) : Blames (Parse.namedType fuel type name) := by
  refine advance.bind fun place => ?_
  split
  · exact ret _
  · refine (eat _).bind fun found => ?_
    split
    · exact (genericArguments htype).bind fun _ => (expect _ _).bind fun _ =>
        (locate _ _).bind fun _ => ret _
    · exact ret _

theorem parenthesized : Blames (Parse.parenthesized type) :=
  advance.bind fun _ => htype.bind fun _ => (expect _ _).bind fun _ => ret _

theorem primary : Blames (Parse.primary fuel type) := by
  refine (lookahead 0).bind fun found => ?_
  split
  · refine (lookahead 1).bind fun _ => ?_
    split
    · exact templateType htype
    · exact namedType htype _
  · exact advance.bind fun _ => ret _
  · exact advance.bind fun _ => ret _
  · exact advance.bind fun _ => ret _
  · exact recordType htype
  · refine opensFunction.bind fun opens => ?_
    split
    · exact functionType htype
    · exact parenthesized htype
  · exact fail _

theorem unionType : Blames (Parse.unionType fuel type) :=
  chain (chain ((primary htype).bind fun e => properties fuel e))

end Rules

theorem typeWithin (fuel depth : Nat) : Blames (Parse.typeWithin fuel depth) := by
  induction depth with
  | zero => exact fails _
  | succ depth ih => exact unionType ih

theorem whole (fuel : Nat) : Blames (Parse.whole fuel) := by
  refine (typeWithin _ _).bind fun e => (lookahead 0).bind fun found => ?_
  split
  · exact fail _
  · exact ret e

end Blames

theorem split_of_scanFrom {fuel start : Nat} {cs : List Char} {fault : SyntaxError}
    (h : scanFrom fuel start cs = .error fault) :
    ∃ front middle rest, cs = front ++ (middle ++ rest) ∧ start + byteCount front = fault.start ∧
      fault.start + byteCount middle = fault.stop := by
  induction fuel generalizing start cs with
  | zero => cases h
  | succ fuel ih =>
    cases cs with
    | nil => cases h
    | cons c cs =>
      rw [scanFrom] at h
      split at h
      next hblank =>
        obtain ⟨front, middle, rest, rfl, hstart, hstop⟩ := ih h
        exact ⟨c :: front, middle, rest, rfl, by rw [← hstart, byteCount, Nat.add_assoc], hstop⟩
      next hblank =>
        split at h
        next hfault =>
          cases h
          exact ⟨[], c :: cs, [], by simp, rfl, rfl⟩
        next hfault =>
          cases h
          exact ⟨[], [c], cs, rfl, rfl, rfl⟩
        next t width hlexeme =>
          dsimp only at h
          cases hrest : scanFrom fuel (start + c.utf8Size + byteCount (cs.take width))
              (cs.drop width) with
          | ok placed =>
            rw [hrest] at h
            cases h
          | error e =>
            rw [hrest] at h
            cases h
            obtain ⟨front, middle, rest, hsplit, hstart, hstop⟩ := ih hrest
            refine ⟨c :: (cs.take width ++ front), middle, rest, ?_, ?_, hstop⟩
            · rw [List.cons_append, List.append_assoc, ← hsplit, List.take_append_drop]
            · rw [← hstart, byteCount, byteCount_append, Nat.add_assoc, Nat.add_assoc]

theorem lies_of_fault {fault : SyntaxError} (h : parse text file = .error fault) :
    Location.Lies text file ⟨file, fault.start, fault.stop⟩ := by
  rw [parse] at h
  cases hscan : scan text.toList with
  | error e =>
    rw [hscan] at h
    cases h
    obtain ⟨front, middle, rest, hsplit, hstart, hstop⟩ := split_of_scanFrom hscan
    exact lies_of_split hsplit rfl (by rw [← hstart, Nat.zero_add]) hstop
  | ok placed =>
    rw [hscan] at h
    change ofTokens file (byteCount text.toList) placed = .error fault at h
    rw [ofTokens, StateT.run'_eq] at h
    cases hrun : (Parse.whole placed.length).run ⟨file, byteCount text.toList, placed, 0⟩ with
    | ok result =>
      rw [hrun] at h
      cases h
    | error e =>
      rw [hrun] at h
      cases h
      rcases (Blames.whole _ _).2 fault hrun with ⟨hstart, hstop⟩ | ⟨p, hp, hstart, hstop⟩
      · have hsplit : text.toList = text.toList ++ ([] ++ []) := by simp
        rw [hstart, hstop]
        exact lies_of_split hsplit rfl rfl rfl
      · obtain ⟨before, behind, hsplit⟩ := List.append_of_mem hp
        have hcovers : Covers file [p] ⟨file, fault.start, fault.stop⟩ :=
          ⟨rfl, congrArg some hstart.symm, congrArg some hstop.symm⟩
        exact hcovers.lies (tokenized_of_scan hscan) ⟨before, behind, by simp [← hsplit]⟩

theorem located_of_parse (h : parse text file = .ok e) (hn : e.Contains n) :
    Located text file n := by
  obtain ⟨tokens, htokens, hsited⟩ := sited_of_parse h
  obtain ⟨opens, vs, closes, hvs, hsits⟩ := hsited.within n hn
  exact hsits.located htokens (List.IsInfix.trans ⟨opens, closes, rfl⟩ hvs)

/-- Reading a text reports nothing, and each expression in the one that is read is located in the
text with its parts inside of it, or it reports exactly one error, whose range lies in the text. -/
theorem parseReporting_located (text : String) (file : Option String) (report : Report) :
    (∃ e, parseReporting text file report = (some e, report) ∧
      ∀ n, e.Contains n → Located text file n) ∨
    ∃ l message arguments, parseReporting text file report =
      (none, report.error l message arguments) ∧ l.Lies text file := by
  rw [parseReporting]
  cases h : parse text file with
  | ok e => exact .inl ⟨e, rfl, fun n hn => located_of_parse h hn⟩
  | error fault =>
    have hlies := lies_of_fault h
    obtain ⟨kind, start, stop⟩ := fault
    cases kind with
    | unexpected expected found => exact .inr ⟨_, _, _, rfl, hlies⟩
    | tooDeep => exact .inr ⟨_, _, _, rfl, hlies⟩

end TypeExpr
end TemplateCheck
