import Mathlib.Data.String.Basic
import TemplateCheck.Proofs.TypeExpr.Scanning

/-! Where the tokens of a text stand in it. A token is scanned without a look at what stands behind
it, apart from what would continue it; so a piece of the text from the start of a token to the end
of one is scanned to the tokens in between. -/

namespace TemplateCheck.TypeExpr
variable {c : Char} {cs rest : List Char} {t : Token} {width start : Nat}
  {ps vs before behind : List PlacedToken} {p : PlacedToken}

def firstStart (vs : List PlacedToken) : Option Nat := vs.head?.map (·.start)

def lastStop (vs : List PlacedToken) : Option Nat := vs.getLast?.map (·.stop)

@[simp]
theorem firstStart_nil : firstStart [] = none := rfl

@[simp]
theorem firstStart_cons (p : PlacedToken) (ps : List PlacedToken) :
    firstStart (p :: ps) = some p.start := rfl

@[simp]
theorem firstStart_append (ps qs : List PlacedToken) :
    firstStart (ps ++ qs) = (firstStart ps).or (firstStart qs) := by
  cases ps <;> rfl

@[simp]
theorem lastStop_nil : lastStop [] = none := rfl

@[simp]
theorem lastStop_append (ps qs : List PlacedToken) :
    lastStop (ps ++ qs) = (lastStop qs).or (lastStop ps) := by
  rw [lastStop, List.getLast?_append, Option.map_or]
  rfl

@[simp]
theorem lastStop_cons (p : PlacedToken) (ps : List PlacedToken) :
    lastStop (p :: ps) = (lastStop ps).or (some p.stop) := lastStop_append [p] ps

theorem lastStop_append_of_firstStart {ps qs : List PlacedToken} {a : Nat}
    (h : firstStart qs = some a) : lastStop (ps ++ qs) = lastStop qs := by
  cases qs with
  | nil => cases h
  | cons q qs => cases hqs : lastStop qs <;> simp [hqs]

theorem byteCount_append (cs ds : List Char) :
    byteCount (cs ++ ds) = byteCount cs + byteCount ds := by
  induction cs with
  | nil => exact (Nat.zero_add _).symm
  | cons c cs ih => rw [List.cons_append, byteCount, byteCount, ih, Nat.add_assoc]

theorem utf8Len_eq_byteCount (cs : List Char) : String.utf8Len cs = byteCount cs := by
  induction cs with
  | nil => rfl
  | cons c cs ih => rw [String.utf8Len_cons, byteCount, ih, Nat.add_comm]

section Lexemes

def Splits (text : List Char) (width : Nat) (P : List Char → Prop) : Prop :=
  ∃ taken after, text = taken ++ after ∧ taken.length = width ∧
    ∀ more, more <+: after → P (taken ++ more)

namespace Splits
variable {P Q : List Char → Prop}

theorem none (h : ∀ more, more <+: cs → P more) : Splits cs 0 P := ⟨[], cs, rfl, rfl, h⟩

theorem imp (h : Splits cs width P) (hPQ : ∀ text, P text → Q text) : Splits cs width Q := by
  obtain ⟨taken, after, htext, hwidth, hP⟩ := h
  exact ⟨taken, after, htext, hwidth, fun more hmore => hPQ _ (hP more hmore)⟩

theorem cons (h : Splits cs width P) (hPQ : ∀ text, P text → Q (c :: text)) :
    Splits (c :: cs) (width + 1) Q := by
  obtain ⟨taken, after, rfl, rfl, hP⟩ := h
  exact ⟨c :: taken, after, rfl, rfl, fun more hmore => hPQ _ (hP more hmore)⟩

end Splits

theorem startsWith_mono {test : Char → Bool} {more : List Char} (hmore : more <+: cs)
    (h : startsWith test more) : startsWith test cs := by
  obtain ⟨after, rfl⟩ := hmore
  cases more with
  | nil => cases h
  | cons d more => exact h

theorem splits_takeWhile (test : Char → Bool) (cs : List Char) :
    Splits cs (cs.takeWhile test).length fun text => text.takeWhile test = cs.takeWhile test := by
  induction cs with
  | nil => exact .none fun more hmore => by rw [List.prefix_nil.1 hmore]
  | cons c cs ih =>
    cases hc : test c with
    | true =>
      rw [List.takeWhile_cons_of_pos hc]
      exact ih.cons fun text htext => by rw [List.takeWhile_cons_of_pos hc, htext]
    | false =>
      rw [List.takeWhile_cons_of_neg (by simp [hc])]
      refine .none fun more hmore => ?_
      rcases List.prefix_cons_iff.1 hmore with rfl | ⟨more, rfl, -⟩
      · rfl
      · exact List.takeWhile_cons_of_neg (by simp [hc])

theorem startsWith_of_takeWhile_eq {test part : Char → Bool} {text : List Char}
    (hpart : ∀ d, test d → part d) (h : text.takeWhile part = cs.takeWhile part)
    (hstart : startsWith test cs) : startsWith test text := by
  cases cs with
  | nil => cases hstart
  | cons d cs =>
    have hd : test d := by simpa [startsWith] using hstart
    rw [List.takeWhile_cons_of_pos (hpart d hd)] at h
    refine startsWith_mono (List.takeWhile_prefix part) ?_
    rw [h]
    exact hstart

theorem nameTail_begins (cs : List Char) : nameTail cs <+: cs := by
  induction cs with
  | nil => exact List.prefix_refl _
  | cons c cs ih =>
    rw [nameTail]
    split
    · exact List.cons_prefix_cons.2 ⟨rfl, ih⟩
    · split
      · exact List.cons_prefix_cons.2 ⟨rfl, ih⟩
      · exact List.nil_prefix

theorem startsWith_nameTail (h : startsWith isNameStart cs) :
    startsWith isNameStart (nameTail cs) := by
  cases cs with
  | nil => cases h
  | cons c cs =>
    have hc : isNameStart c := by simpa [startsWith] using h
    rw [nameTail, if_pos (isNamePart_of_isNameStart hc)]
    exact h

theorem splits_nameTail (cs : List Char) :
    Splits cs (nameTail cs).length fun text => nameTail text = nameTail cs := by
  induction cs with
  | nil => exact .none fun more hmore => by rw [List.prefix_nil.1 hmore]
  | cons c cs ih =>
    rw [nameTail]
    split
    next hc => exact ih.cons fun text htext => by rw [nameTail, if_pos hc, htext]
    next hc =>
      split
      next hdot =>
        refine ih.cons fun text htext => ?_
        rw [Bool.and_eq_true] at hdot
        have hstart : startsWith isNameStart (nameTail text) := htext ▸ startsWith_nameTail hdot.2
        rw [nameTail, if_neg hc, htext, if_pos]
        rw [hdot.1, startsWith_mono (nameTail_begins text) hstart, Bool.and_self]
      next hdot =>
        refine .none fun more hmore => ?_
        rcases List.prefix_cons_iff.1 hmore with rfl | ⟨text, rfl, htext⟩
        · rfl
        · rw [nameTail, if_neg hc, if_neg]
          simp only [Bool.and_eq_true, decide_eq_true_eq, not_and] at hdot ⊢
          exact fun heq hstart => hdot heq (startsWith_mono htext hstart)

theorem splits_readQuoted {delimiter : Char} {value : List Char}
    (h : Text.readQuoted delimiter cs = some (value, width)) :
    Splits cs width fun text => Text.readQuoted delimiter text = some (value, width) := by
  fun_induction Text.readQuoted delimiter cs generalizing value width with
  | case1 => cases h
  | case2 rest =>
    cases h
    refine ⟨[delimiter], rest, rfl, rfl, fun more _ => ?_⟩
    change Text.readQuoted delimiter (delimiter :: more) = _
    rw [Text.readQuoted.eq_def]
    exact if_pos rfl
  | case3 => cases h
  | case4 letter rest hquote ih =>
    obtain ⟨⟨value, width⟩, hrest, heq⟩ := Option.map_eq_some_iff.1 h
    cases heq
    have hletter : Splits (letter :: rest) (width + 1) fun text =>
        ∃ more, text = letter :: more ∧ Text.readQuoted delimiter more = some (value, width) :=
      (ih hrest).cons fun more hmore => ⟨more, rfl, hmore⟩
    refine hletter.cons fun text htext => ?_
    obtain ⟨more, rfl, hmore⟩ := htext
    rw [Text.readQuoted.eq_def]
    simp [hquote, hmore]
  | case5 c rest hquote hslash ih =>
    obtain ⟨⟨value, width⟩, hrest, heq⟩ := Option.map_eq_some_iff.1 h
    cases heq
    refine (ih hrest).cons fun text htext => ?_
    rw [Text.readQuoted.eq_def]
    simp [hquote, hslash, htext]

theorem splits_lexeme (h : lexeme c rest = .ok (t, width)) :
    Splits rest width fun text => lexeme c text = .ok (t, width) := by
  unfold lexeme at h
  split at h
  next u hu =>
    cases h
    exact .none fun more _ => by rw [lexeme, hu]
  next hsymbol =>
    repeat' split at h
    all_goals cases h
    -- A dot alone is the only token that a longer text could turn into another one.
    next harrow =>
      obtain ⟨hc, hstart⟩ := Bool.and_eq_true_iff.1 harrow
      obtain rfl : c = '=' := of_decide_eq_true hc
      cases rest with
      | nil => cases hstart
      | cons d rest =>
        obtain rfl : d = '>' := by simpa [startsWith] using hstart
        exact ⟨['>'], rest, rfl, rfl, fun more _ => by simp [lexeme, hsymbol, startsWith]⟩
    next hdot hdots =>
      obtain rfl := hdot
      obtain ⟨after, rfl⟩ := List.prefix_iff_exists_eq_append.1 (hdots ▸ List.take_prefix 2 rest)
      exact ⟨['.', '.'], after, rfl, rfl, fun more _ => by simp [lexeme, hsymbol]⟩
    next hdot hdots =>
      obtain rfl := hdot
      refine .none fun more hmore => ?_
      have htake : more.take 2 ≠ ['.', '.'] := by
        intro htake
        have hprefix : ['.', '.'] <+: rest := (htake ▸ List.take_prefix 2 more).trans hmore
        exact hdots (List.prefix_iff_eq_take.1 hprefix).symm
      simp [lexeme, hsymbol, htake]
    next hdot hat =>
      obtain ⟨hc, hstart⟩ := Bool.and_eq_true_iff.1 hat
      obtain rfl : c = '@' := of_decide_eq_true hc
      refine (splits_takeWhile isAttributePart rest).imp fun text htext => ?_
      have hpart (d : Char) (hd : isNameStart d) : isAttributePart d := by
        simp [isAttributePart, isNamePart_of_isNameStart hd]
      simp [lexeme, hsymbol, htext, startsWith_of_takeWhile_eq hpart htext hstart]
    next harrow hdot hat hquote optional width hread =>
      refine (splits_readQuoted hread).imp fun text htext => ?_
      rcases Bool.or_eq_true_iff.1 hquote with hc | hc
      · obtain rfl : c = '\'' := of_decide_eq_true hc
        simp [lexeme, hsymbol, htext]
      · obtain rfl : c = '"' := of_decide_eq_true hc
        simp [lexeme, hsymbol, htext]
    next hnumber =>
      refine (splits_takeWhile isNumberPart rest).imp fun text htext => ?_
      have hpart (d : Char) (hd : d.isDigit) : isNumberPart d := by simp [isNumberPart, hd]
      have hstarts : StartsNumber c text := by
        rcases Bool.or_eq_true_iff.1 hnumber with hc | hminus
        · exact .inl hc
        · obtain ⟨hc, hstart⟩ := Bool.and_eq_true_iff.1 hminus
          exact .inr ⟨of_decide_eq_true hc, startsWith_of_takeWhile_eq hpart htext hstart⟩
      rw [lexeme_number hstarts, htext]
    next hname =>
      refine (splits_nameTail rest).imp fun text htext => ?_
      rw [lexeme_name hname, htext]

end Lexemes

/-- The tokens of a text that starts at the byte `start`, each with the characters it was scanned
from. -/
inductive Tokenized : Nat → List Char → List PlacedToken → Prop where
  | nil (start : Nat) : Tokenized start [] []
  | blank {start : Nat} {c : Char} {cs : List Char} {ps : List PlacedToken} (hc : Text.isBlank c)
      (h : Tokenized (start + c.utf8Size) cs ps) : Tokenized start (c :: cs) ps
  | lexeme {start : Nat} {c : Char} {taken after : List Char} {t : Token} {ps : List PlacedToken}
      (hc : Text.isBlank c = false)
      (ht : ∀ more, more <+: after → lexeme c (taken ++ more) = .ok (t, taken.length))
      (h : Tokenized (start + byteCount (c :: taken)) after ps) :
      Tokenized start (c :: (taken ++ after)) (⟨t, start, start + byteCount (c :: taken)⟩ :: ps)

structure InOrder (ps : List PlacedToken) : Prop where
  apart : ps.Pairwise fun p q => p.stop ≤ q.start
  proper : ∀ p ∈ ps, p.start ≤ p.stop

namespace InOrder

theorem within (h : InOrder ps) (hvs : vs <:+: ps) : InOrder vs :=
  ⟨h.apart.sublist hvs.sublist, fun p hp => h.proper p (hvs.subset hp)⟩

theorem bounds {a b : Nat} (h : InOrder ps) (hfirst : firstStart ps = some a)
    (hlast : lastStop ps = some b) (hp : p ∈ ps) : a ≤ p.start ∧ p.stop ≤ b := by
  obtain ⟨v, hv, rfl⟩ := Option.map_eq_some_iff.1 hfirst
  obtain ⟨w, hw, rfl⟩ := Option.map_eq_some_iff.1 hlast
  constructor
  · obtain ⟨tail, rfl⟩ := List.head?_eq_some_iff.1 hv
    rcases List.mem_cons.1 hp with rfl | hp
    · exact Nat.le_refl _
    · exact Nat.le_trans (h.proper v (List.mem_cons_self ..)) (List.rel_of_pairwise_cons h.apart hp)
  · obtain ⟨init, rfl⟩ := List.getLast?_eq_some_iff.1 hw
    rcases List.mem_append.1 hp with hp | hp
    · have hle : p.stop ≤ w.start :=
        (List.pairwise_append.1 h.apart).2.2 p hp w (List.mem_singleton_self w)
      exact Nat.le_trans hle (h.proper w (by simp))
    · rw [List.mem_singleton.1 hp]

end InOrder

theorem tokenized_of_scanFrom {fuel : Nat} (hfuel : cs.length ≤ fuel)
    (h : scanFrom fuel start cs = .ok ps) : Tokenized start cs ps := by
  induction fuel generalizing start cs ps with
  | zero =>
    obtain rfl := List.length_eq_zero_iff.1 (Nat.le_zero.1 hfuel)
    cases h
    exact .nil start
  | succ fuel ih =>
    cases cs with
    | nil =>
      cases h
      exact .nil start
    | cons c cs =>
      have hlength := Nat.le_of_succ_le_succ hfuel
      rw [scanFrom] at h
      split at h
      next hc => exact .blank hc (ih hlength h)
      next hc =>
        split at h
        · cases h
        · cases h
        next t width hlexeme =>
          obtain ⟨taken, after, rfl, rfl, ht⟩ := splits_lexeme hlexeme
          dsimp only at h
          rw [List.take_left, List.drop_left, Nat.add_assoc, ← byteCount] at h
          cases hafter : scanFrom fuel (start + byteCount (c :: taken)) after with
          | error fault =>
            rw [hafter] at h
            cases h
          | ok placed =>
            rw [hafter] at h
            cases h
            refine .lexeme (Bool.eq_false_iff.2 hc) ht (ih ?_ hafter)
            rw [List.length_append] at hlength
            exact Nat.le_of_add_left_le hlength

theorem tokenized_of_scan (h : scan cs = .ok ps) : Tokenized 0 cs ps :=
  tokenized_of_scanFrom (Nat.le_refl _) h

namespace Tokenized

theorem drop (h : Tokenized start cs (before ++ ps)) :
    ∃ front rest, cs = front ++ rest ∧ Tokenized (start + byteCount front) rest ps := by
  generalize hall : before ++ ps = all at h
  induction h generalizing before with
  | nil start =>
    obtain ⟨-, rfl⟩ := List.append_eq_nil_iff.1 hall
    exact ⟨[], [], rfl, .nil _⟩
  | @blank start c cs all hc _ ih =>
    obtain ⟨front, rest, rfl, hrest⟩ := ih hall
    refine ⟨c :: front, rest, rfl, ?_⟩
    rwa [byteCount, ← Nat.add_assoc]
  | @lexeme start c taken after t all hc ht h ih =>
    cases before with
    | nil =>
      subst hall
      exact ⟨[], _, rfl, .lexeme hc ht h⟩
    | cons p before =>
      obtain ⟨rfl, hbefore⟩ := List.cons.inj hall
      obtain ⟨front, rest, rfl, hrest⟩ := ih hbefore
      refine ⟨c :: (taken ++ front), rest, by simp, ?_⟩
      rwa [← List.cons_append, byteCount_append, ← Nat.add_assoc]

theorem skip (h : Tokenized start cs (p :: ps)) :
    ∃ front rest, cs = front ++ rest ∧ start + byteCount front = p.start ∧
      Tokenized p.start rest (p :: ps) := by
  generalize hall : p :: ps = all at h
  induction h with
  | nil => cases hall
  | @blank start c cs all hc _ ih =>
    obtain ⟨front, rest, rfl, hstart, hrest⟩ := ih hall
    exact ⟨c :: front, rest, rfl, by rw [← hstart, byteCount, Nat.add_assoc], hrest⟩
  | lexeme hc ht h =>
    obtain ⟨rfl, rfl⟩ := List.cons.inj hall
    exact ⟨[], _, rfl, rfl, .lexeme hc ht h⟩

theorem upTo (h : Tokenized start cs (vs ++ p :: ps)) :
    ∃ front rest, cs = front ++ rest ∧ start + byteCount front = p.stop ∧
      Scans front ((vs ++ [p]).map (·.token)) := by
  generalize hall : vs ++ p :: ps = all at h
  induction h generalizing vs with
  | nil => simp at hall
  | @blank start c cs all hc _ ih =>
    obtain ⟨front, rest, rfl, hstop, hscans⟩ := ih hall
    exact ⟨c :: front, rest, rfl, by rw [← hstop, byteCount, Nat.add_assoc], .blank hc hscans⟩
  | @lexeme start c taken after t all hc ht h ih =>
    cases vs with
    | nil =>
      obtain ⟨rfl, rfl⟩ := List.cons.inj hall
      have hscans := Scans.lexeme hc (ht [] List.nil_prefix) .nil
      rw [List.append_nil] at hscans
      exact ⟨c :: taken, after, rfl, rfl, hscans⟩
    | cons v vs =>
      obtain ⟨rfl, hvs⟩ := List.cons.inj hall
      obtain ⟨front, rest, rfl, hstop, hscans⟩ := ih hvs
      refine ⟨c :: (taken ++ front), rest, by simp, ?_, ?_⟩
      · rw [← List.cons_append, byteCount_append, ← Nat.add_assoc, hstop]
      · exact .lexeme hc (ht front (List.prefix_append front rest)) hscans

theorem excerpt {a b : Nat} (h : Tokenized start cs ps) (hvs : vs <:+: ps)
    (hfirst : firstStart vs = some a) (hlast : lastStop vs = some b) :
    ∃ front middle rest, cs = front ++ (middle ++ rest) ∧ start + byteCount front = a ∧
      a + byteCount middle = b ∧ Scans middle (vs.map (·.token)) := by
  obtain ⟨before, behind, rfl⟩ := hvs
  obtain ⟨p, hp, rfl⟩ := Option.map_eq_some_iff.1 hlast
  obtain ⟨init, rfl⟩ := List.getLast?_eq_some_iff.1 hp
  obtain ⟨v, hv, rfl⟩ := Option.map_eq_some_iff.1 hfirst
  obtain ⟨tail, htail⟩ := List.head?_eq_some_iff.1 hv
  rw [List.append_assoc] at h
  obtain ⟨front, rest, rfl, hrest⟩ := h.drop
  have hall : init ++ [p] ++ behind = v :: (tail ++ behind) := by rw [htail, List.cons_append]
  rw [hall] at hrest
  obtain ⟨blanks, rest, rfl, hstart, hrest⟩ := hrest.skip
  rw [← hall, List.append_assoc, List.singleton_append] at hrest
  obtain ⟨middle, rest, rfl, hstop, hscans⟩ := hrest.upTo
  refine ⟨front ++ blanks, middle, rest, by rw [List.append_assoc], ?_, hstop, hscans⟩
  rw [byteCount_append, ← Nat.add_assoc, hstart]

theorem ordered (h : Tokenized start cs ps) :
    ps.Pairwise (fun p q => p.stop ≤ q.start) ∧ ∀ p ∈ ps, start ≤ p.start ∧ p.start ≤ p.stop := by
  induction h with
  | nil => exact ⟨.nil, List.forall_mem_nil _⟩
  | blank _ _ ih =>
    exact ⟨ih.1, fun p hp => ⟨Nat.le_of_add_right_le (ih.2 p hp).1, (ih.2 p hp).2⟩⟩
  | lexeme _ _ _ ih =>
    refine ⟨List.pairwise_cons.2 ⟨fun p hp => (ih.2 p hp).1, ih.1⟩, ?_⟩
    refine List.forall_mem_cons.2 ⟨⟨Nat.le_refl _, Nat.le_add_right ..⟩, fun p hp => ?_⟩
    exact ⟨Nat.le_of_add_right_le (ih.2 p hp).1, (ih.2 p hp).2⟩

theorem inOrder (h : Tokenized start cs ps) : InOrder ps :=
  ⟨h.ordered.1, fun p hp => (h.ordered.2 p hp).2⟩

end Tokenized
end TemplateCheck.TypeExpr
