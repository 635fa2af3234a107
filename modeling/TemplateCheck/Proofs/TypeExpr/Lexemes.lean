import TemplateCheck.Proofs.TypeExpr.Excerpts

/-! The tokens of a text, each with the characters that it was scanned from. In front of any text a
token is followed by the tokens of that text, moved by its width; what a text consists of besides
its tokens is blank, and each token is scanned again from its own characters. -/

namespace TemplateCheck.TypeExpr
variable {c : Char} {cs taken rest : List Char} {t : Token} {start : Nat}
  {ps tokens : List PlacedToken} {p : PlacedToken}

section Moving

def PlacedToken.moved (n : Nat) (p : PlacedToken) : PlacedToken :=
  ⟨p.token, p.start + n, p.stop + n⟩

def SyntaxError.moved (n : Nat) (e : SyntaxError) : SyntaxError :=
  ⟨e.fault, e.start + n, e.stop + n⟩

/-- What comes of a text that stands `n` bytes further on. -/
def moved (n : Nat) : Except SyntaxError (List PlacedToken) → Except SyntaxError (List PlacedToken)
  | .ok tokens => .ok (tokens.map (.moved n))
  | .error e => .error (e.moved n)

theorem scanFrom_moved (fuel start n : Nat) (cs : List Char) :
    scanFrom fuel (start + n) cs = moved n (scanFrom fuel start cs) := by
  induction fuel generalizing start cs with
  | zero => rfl
  | succ fuel ih =>
    cases cs with
    | nil => rfl
    | cons c cs =>
      rw [scanFrom, scanFrom]
      split
      next => rw [Nat.add_right_comm, ih]
      next =>
        cases lexeme c cs with
        | error fault => cases fault <;> simp only [moved, SyntaxError.moved, Nat.add_right_comm]
        | ok lexed =>
          obtain ⟨t, width⟩ := lexed
          dsimp only
          rw [Nat.add_right_comm start n, Nat.add_right_comm _ n, ih]
          cases scanFrom fuel (start + c.utf8Size + byteCount (cs.take width)) (cs.drop width) <;>
            rfl

theorem scanFrom_congr {fuel fuel' : Nat} (h : cs.length ≤ fuel) (h' : cs.length ≤ fuel') :
    scanFrom fuel start cs = scanFrom fuel' start cs := by
  induction fuel generalizing fuel' start cs with
  | zero =>
    obtain rfl := List.length_eq_zero_iff.1 (Nat.le_zero.1 h)
    cases fuel' <;> rfl
  | succ fuel ih =>
    cases cs with
    | nil => cases fuel' <;> rfl
    | cons c cs =>
      obtain ⟨fuel', rfl⟩ := Nat.exists_eq_add_of_le' (Nat.le_of_add_left_le h')
      have hlength := Nat.le_of_succ_le_succ h
      have hlength' := Nat.le_of_succ_le_succ h'
      rw [scanFrom, scanFrom, ih hlength hlength']
      split
      next => rfl
      next =>
        cases lexeme c cs with
        | error fault => cases fault <;> rfl
        | ok lexed =>
          have hdrop : (cs.drop lexed.2).length ≤ cs.length := by simp
          dsimp only
          rw [ih (hdrop.trans hlength) (hdrop.trans hlength')]

theorem scan_lexeme (hc : Text.isBlank c = false)
    (ht : lexeme c (taken ++ rest) = .ok (t, taken.length)) :
    scan (c :: (taken ++ rest)) = (moved (byteCount (c :: taken)) (scan rest)).map
      (⟨t, 0, byteCount (c :: taken)⟩ :: ·) := by
  have hrest : scanFrom (taken ++ rest).length (c.utf8Size + byteCount taken) rest =
      moved (byteCount (c :: taken)) (scan rest) := by
    rw [← Nat.zero_add (c.utf8Size + _), scanFrom_moved]
    exact congrArg _ (scanFrom_congr (by simp) (Nat.le_refl _))
  rw [scan, List.length_cons, scanFrom, if_neg (by simp [hc]), ht]
  simp only [List.take_left, List.drop_left, Nat.zero_add, hrest]
  cases scan rest <;> rfl

end Moving

section Quotes

theorem lexeme_quote (value : String) (rest : List Char) :
    lexeme '\'' (value.toList.flatMap Text.typeEscapes.write ++ '\'' :: rest) =
      .ok (.quoted value, (value.toList.flatMap Text.typeEscapes.write).length + 1) := by
  have hsymbol : symbols.lookup '\'' = none := by decide
  simp [lexeme, hsymbol, readQuoted_quote]

/-- A quoted value in front of any text is one token, followed by the tokens of the text; the scan
fails exactly if that of the text does, with its fault. -/
theorem scan_quote_append (value rest : String) :
    scan (Text.typeEscapes.quoteString value ++ rest).toList =
        (moved (Text.typeEscapes.quoteString value).utf8ByteSize (scan rest.toList)).map
          (⟨.quoted value, 0, (Text.typeEscapes.quoteString value).utf8ByteSize⟩ :: ·) ∧
      byteCount (Text.typeEscapes.quoteString value ++ rest).toList =
        byteCount rest.toList + (Text.typeEscapes.quoteString value).utf8ByteSize := by
  have hquoted : (Text.typeEscapes.quoteString value).toList =
      '\'' :: (value.toList.flatMap Text.typeEscapes.write ++ ['\'']) := String.toList_ofList
  generalize Text.typeEscapes.quoteString value = quoted at hquoted ⊢
  have hsize : quoted.utf8ByteSize = byteCount quoted.toList := by
    rw [← utf8Len_eq_byteCount, String.utf8Len_toList]
  rw [String.toList_append, hsize]
  constructor
  · rw [hquoted, List.cons_append]
    refine scan_lexeme (by decide) ?_
    simpa using lexeme_quote value rest.toList
  · rw [byteCount_append, Nat.add_comm]

end Quotes

section Coverage

namespace Tokenized

theorem exists_lexeme (h : Tokenized start cs ps) (hp : p ∈ ps) :
    ∃ front c taken behind, cs = front ++ (c :: taken ++ behind) ∧
      p.start = start + byteCount front ∧ p.stop = p.start + byteCount (c :: taken) ∧
      Text.isBlank c = false ∧ TypeExpr.lexeme c taken = .ok (p.token, taken.length) := by
  induction h with
  | nil => cases hp
  | @blank start c cs ps hc h ih =>
    obtain ⟨front, d, taken, behind, rfl, hstart, hlexeme⟩ := ih hp
    refine ⟨c :: front, d, taken, behind, rfl, ?_, hlexeme⟩
    rw [hstart, byteCount, Nat.add_assoc]
  | @lexeme start c taken after t ps hc ht h ih =>
    rcases List.mem_cons.1 hp with rfl | hp
    · have hown := ht [] List.nil_prefix
      rw [List.append_nil] at hown
      exact ⟨[], c, taken, after, rfl, rfl, rfl, hc, hown⟩
    · obtain ⟨front, d, taken', behind, rfl, hstart, hlexeme⟩ := ih hp
      refine ⟨c :: taken ++ front, d, taken', behind, by simp, ?_, hlexeme⟩
      rw [hstart, byteCount_append, Nat.add_assoc]

theorem blank_or_covered (h : Tokenized start cs ps) {front behind : List Char} {d : Char}
    (hcs : cs = front ++ d :: behind) :
    Text.isBlank d ∨ ∃ p ∈ ps, p.start ≤ start + byteCount front ∧
      start + byteCount front < p.stop := by
  induction h generalizing front with
  | nil => simp at hcs
  | @blank start c cs ps hc h ih =>
    cases front with
    | nil =>
      obtain ⟨rfl, -⟩ := List.cons.inj hcs
      exact .inl hc
    | cons e front =>
      obtain ⟨rfl, htail⟩ := List.cons.inj hcs
      rw [byteCount, ← Nat.add_assoc]
      exact ih htail
  | @lexeme start c taken after t ps hc ht h ih =>
    have hbehind (front' : List Char) (hafter : after = front' ++ d :: behind)
        (hwidth : byteCount front = byteCount (c :: taken) + byteCount front') :
        Text.isBlank d ∨ ∃ p ∈ ⟨t, start, start + byteCount (c :: taken)⟩ :: ps,
          p.start ≤ start + byteCount front ∧ start + byteCount front < p.stop := by
      rw [hwidth, ← Nat.add_assoc]
      exact (ih hafter).imp_right List.exists_mem_cons_of_exists
    rw [← List.cons_append] at hcs
    rcases List.append_eq_append_iff.1 hcs with ⟨front', rfl, hafter⟩ | ⟨tail, hfront, htail⟩
    · exact hbehind front' hafter (byteCount_append ..)
    · cases tail with
      | nil =>
        rw [List.append_nil] at hfront
        exact hbehind [] htail.symm (congrArg byteCount hfront.symm)
      | cons e tail =>
        refine .inr ⟨_, List.mem_cons_self .., Nat.le_add_right .., Nat.add_lt_add_left ?_ start⟩
        rw [hfront, byteCount_append, byteCount]
        exact Nat.lt_add_of_pos_right (Nat.add_pos_left e.utf8Size_pos _)

end Tokenized

/-- The ranges of the tokens, and the empty one at the end of the text, where the parser finds no
further token. -/
def ranges (text : String) (tokens : List PlacedToken) : List (Nat × Nat) :=
  tokens.map (fun p => (p.start, p.stop)) ++ [(text.utf8ByteSize, text.utf8ByteSize)]

theorem isValid_of_append {text : String} {front behind : List Char}
    (h : text.toList = front ++ behind) : String.Pos.Raw.IsValid text ⟨byteCount front⟩ := by
  rw [String.Pos.Raw.isValid_iff_exists_append]
  refine ⟨String.ofList front, String.ofList behind, ?_, ?_⟩
  · rw [← String.ofList_append, ← h, String.ofList_toList]
  · rw [String.rawEndPos_ofList, utf8Len_eq_byteCount]

theorem placed_of_scan {text : String} (h : scan text.toList = .ok tokens) (hp : p ∈ tokens) :
    p.start < p.stop ∧ String.Pos.Raw.IsValid text ⟨p.start⟩ ∧
      String.Pos.Raw.IsValid text ⟨p.stop⟩ ∧
      scan (Location.source ⟨none, p.start, p.stop⟩ text).toList =
        .ok [⟨p.token, 0, p.stop - p.start⟩] := by
  obtain ⟨front, c, taken, behind, htext, hstart, hstop, hc, hlexeme⟩ :=
    (tokenized_of_scan h).exists_lexeme hp
  rw [Nat.zero_add] at hstart
  have hsource : Location.source ⟨none, p.start, p.stop⟩ text = String.ofList (c :: taken) :=
    Location.source_eq htext hstart.symm hstop.symm
  have halone : lexeme c (taken ++ []) = .ok (p.token, taken.length) := by
    rwa [List.append_nil]
  have hscan := scan_lexeme hc halone
  refine ⟨?_, ?_, ?_, ?_⟩
  · rw [hstop, byteCount]
    exact Nat.lt_add_of_pos_right (Nat.add_pos_left c.utf8Size_pos _)
  · rw [hstart]
    exact isValid_of_append htext
  · rw [hstop, hstart, ← byteCount_append]
    exact isValid_of_append (by rw [htext, List.append_assoc])
  · rw [List.append_nil] at hscan
    rw [hsource, String.toList_ofList, hscan, hstop, Nat.add_sub_cancel_left]
    rfl

theorem ranges_ascend {text : String} (h : scan text.toList = .ok tokens) :
    (ranges text tokens).Pairwise (fun r r' => r.1 < r'.1 ∧ r.2 ≤ r'.1) := by
  rw [ranges, List.pairwise_append, List.pairwise_map]
  refine ⟨(tokenized_of_scan h).inOrder.apart.imp_of_mem fun hp _ hle => ⟨?_, hle⟩,
    List.pairwise_singleton .., ?_⟩
  · exact Nat.lt_of_lt_of_le (placed_of_scan h hp).1 hle
  · simp only [List.forall_mem_map, List.forall_mem_singleton]
    intro p hp
    obtain ⟨hlt, -, hstop, -⟩ := placed_of_scan h hp
    exact ⟨Nat.lt_of_lt_of_le hlt hstop.le_utf8ByteSize, hstop.le_utf8ByteSize⟩

theorem isValid_ranges {text : String} (h : scan text.toList = .ok tokens) :
    ∀ r ∈ ranges text tokens,
      String.Pos.Raw.IsValid text ⟨r.1⟩ ∧ String.Pos.Raw.IsValid text ⟨r.2⟩ := by
  have hend : String.Pos.Raw.IsValid text ⟨text.utf8ByteSize⟩ := String.Pos.Raw.isValid_rawEndPos
  refine List.forall_mem_append.2 ⟨List.forall_mem_map.2 fun p hp => ?_,
    List.forall_mem_singleton.2 ⟨hend, hend⟩⟩
  obtain ⟨-, hstart, hstop, -⟩ := placed_of_scan h hp
  exact ⟨hstart, hstop⟩

/-- The tokens of a text stand in it one behind the other, with at least one character each and only
blanks besides them, and each is the only token of its own piece of the text. -/
theorem scan_lossless {text : String} (h : scan text.toList = .ok tokens) :
    (∀ p ∈ tokens, p.start < p.stop) ∧
      (ranges text tokens).Pairwise (fun r r' => r.1 < r'.1 ∧ r.2 ≤ r'.1) ∧
      (∀ r ∈ ranges text tokens,
        String.Pos.Raw.IsValid text ⟨r.1⟩ ∧ String.Pos.Raw.IsValid text ⟨r.2⟩) ∧
      (∀ front c behind, text.toList = front ++ c :: behind →
        (∀ p ∈ tokens, byteCount front < p.start ∨ p.stop ≤ byteCount front) → Text.isBlank c) ∧
      ∀ p ∈ tokens, scan (Location.source ⟨none, p.start, p.stop⟩ text).toList =
        .ok [⟨p.token, 0, p.stop - p.start⟩] := by
  refine ⟨fun p hp => (placed_of_scan h hp).1, ranges_ascend h, isValid_ranges h,
    fun front c behind htext hout => ?_, fun p hp => (placed_of_scan h hp).2.2.2⟩
  refine ((tokenized_of_scan h).blank_or_covered htext).resolve_right ?_
  rintro ⟨p, hp, hle, hlt⟩
  rcases hout p hp with hbefore | hbehind <;> omega

theorem scan_lossless_accent :
    let text := "a.b.'é'\u00A0@c-d"
    let tokens : List PlacedToken :=
      [⟨.name "a.b", 0, 3⟩, ⟨.dot, 3, 4⟩, ⟨.quoted "é", 4, 8⟩, ⟨.attributeName "c-d", 10, 14⟩]
    scan text.toList = .ok tokens ∧
      (∀ r ∈ ranges text tokens,
        String.Pos.Raw.IsValid text ⟨r.1⟩ ∧ String.Pos.Raw.IsValid text ⟨r.2⟩) ∧
      ∀ p ∈ tokens, scan (Location.source ⟨none, p.start, p.stop⟩ text).toList =
        .ok [⟨p.token, 0, p.stop - p.start⟩] := by
  intro text tokens
  have hscan : scan text.toList = .ok tokens := by decide +kernel
  obtain ⟨-, -, hvalid, -, hpieces⟩ := scan_lossless hscan
  exact ⟨hscan, hvalid, hpieces⟩

end Coverage

end TemplateCheck.TypeExpr
