import TemplateCheck.Json.Reader
import TemplateCheck.Portable.Basic
import TemplateCheck.Proofs.Lists

/-! What is written as compact JSON is read again, as long as its arrays and objects do not nest
deeper than the reader allows. -/

namespace TemplateCheck.Json

section Strings
variable {text rest : List Char}

theorem escapeChar_cases (c : Char) :
    (∃ letter, escapeChar c = ['\\', letter] ∧ unescape? letter = some c ∧ letter ≠ 'u') ∨
    (c.toNat < 32 ∧ escapeChar c =
      ['\\', 'u', '0', '0', hexDigit (c.toNat / 16), hexDigit (c.toNat % 16)]) ∨
    (32 ≤ c.toNat ∧ c ≠ '"' ∧ c ≠ '\\' ∧ escapeChar c = [c]) := by
  have hletters : ∀ entry ∈ shortEscapes, unescape? entry.2 = some entry.1 ∧ entry.2 ≠ 'u' := by
    decide
  cases hlookup : shortEscapes.lookup c with
  | some letter =>
    obtain ⟨before, after, hmem, -⟩ := List.lookup_eq_some_iff.1 hlookup
    have hletter := hletters (c, letter) (by simp [hmem])
    exact .inl ⟨letter, by rw [escapeChar, hlookup], hletter⟩
  | none =>
    right
    by_cases hcontrol : c.toNat < 32
    · exact .inl ⟨hcontrol, by rw [escapeChar, hlookup]; exact if_pos hcontrol⟩
    · refine .inr ⟨Nat.le_of_not_lt hcontrol, ?_, ?_, by
        rw [escapeChar, hlookup]; exact if_neg hcontrol⟩
      · rintro rfl
        cases hlookup
      · rintro rfl
        cases hlookup

theorem hexNumber?_control {n : Nat} (h : n < 32) :
    hexNumber? ['0', '0', hexDigit (n / 16), hexDigit (n % 16)] = some n := by
  have hall : ∀ n < 32, hexNumber? ['0', '0', hexDigit (n / 16), hexDigit (n % 16)] = some n := by
    decide
  exact hall n h

theorem joinUnits_control {n : Nat} (h : n < 32) (units : List StringUnit) :
    joinUnits (.code n :: units) = (joinUnits units).map (Char.ofNat n :: ·) := by
  have hhigh : isHighSurrogate n = false := by simp [isHighSurrogate]; omega
  have hlow : isLowSurrogate n = false := by simp [isLowSurrogate]; omega
  cases units with
  | nil => simp [joinUnits, hhigh, hlow]
  | cons unit units => cases unit <;> simp [joinUnits, hhigh, hlow]

theorem exists_units (text rest : List Char) :
    ∃ units, readUnits (text.flatMap escapeChar ++ '"' :: rest) = some (units, rest) ∧
      joinUnits units = some text := by
  induction text with
  | nil => exact ⟨[], rfl, rfl⟩
  | cons c text ih =>
    obtain ⟨units, hread, hjoin⟩ := ih
    rw [List.flatMap_cons, List.append_assoc]
    rcases escapeChar_cases c with ⟨letter, hescape, hletter, hu⟩ | ⟨hcontrol, hescape⟩ |
      ⟨hcontrol, hquote, hslash, hescape⟩
    · refine ⟨.char c :: units, ?_, by rw [joinUnits, hjoin]; rfl⟩
      rw [hescape, List.cons_append, List.cons_append, List.nil_append,
        readUnits.eq_4 _ _ fun _ _ _ _ _ h => absurd h hu, hletter, hread]
      rfl
    · refine ⟨.code c.toNat :: units, ?_, ?_⟩
      · rw [hescape]
        simp only [List.cons_append, List.nil_append]
        rw [readUnits, hexNumber?_control hcontrol, hread]
        rfl
      · rw [joinUnits_control hcontrol, hjoin, Char.ofNat_toNat]
        rfl
    · refine ⟨.char c :: units, ?_, by rw [joinUnits, hjoin]; rfl⟩
      rw [hescape, List.cons_append, List.nil_append,
        readUnits.eq_5 _ _ hquote (fun _ _ _ _ _ h => absurd h hslash)
          (fun _ _ h => absurd h hslash), if_neg (Nat.not_lt.2 hcontrol), hread]
      rfl

theorem quote_toList (text : String) :
    (quote text).toList = '"' :: (text.toList.flatMap escapeChar ++ ['"']) := by
  rw [quote, String.toList_ofList]

theorem readString_escaped (value : String) (rest : List Char) :
    readString (value.toList.flatMap escapeChar ++ '"' :: rest) = some (value, rest) := by
  obtain ⟨units, hread, hjoin⟩ := exists_units value.toList rest
  rw [readString, hread]
  change (joinUnits units).bind _ = _
  rw [hjoin, Option.bind_some, String.ofList_toList]
  rfl

end Strings

mutual

def nesting : Json → Nat
  | array items => nestingAll items + 1
  | object members => nestingMembers members + 1
  | _ => 0

def nestingAll : List Json → Nat
  | [] => 0
  | v :: rest => max (nesting v) (nestingAll rest)

def nestingMembers : List (String × Json) → Nat
  | [] => 0
  | (_, v) :: rest => max (nesting v) (nestingMembers rest)

end

theorem nestingAll_le_iff {items : List Json} {n : Nat} :
    nestingAll items ≤ n ↔ ∀ v ∈ items, nesting v ≤ n :=
  le_iff_of_mem rfl fun _ _ => rfl

theorem nestingMembers_le_iff {members : List (String × Json)} {n : Nat} :
    nestingMembers members ≤ n ↔ ∀ m ∈ members, nesting m.2 ≤ n :=
  le_iff_of_mem (f := fun m : String × Json => nesting m.2) rfl fun _ _ => rfl

/-- The text is the compact form of the value. -/
inductive Writes : Json → String → Prop where
  | bool (value : Bool) : Writes (.bool value) (PortableType.jsonBool value)
  | string (value : String) : Writes (.string value) (quote value)
  | array {items : List (Json × String)} (h : ∀ i ∈ items, Writes i.1 i.2) :
      Writes (.array (items.map (·.1))) (PortableType.jsonArray (items.map (·.2)))
  | object {members : List (String × Json × String)} (h : ∀ m ∈ members, Writes m.2.1 m.2.2) :
      Writes (.object (members.map fun m => (m.1, m.2.1)))
        (PortableType.jsonObject (members.map fun m => (m.1, m.2.2)))

theorem ite_some_bind {α β : Type} {P : Prop} [Decidable P] (a : α) (f : α → Option β) :
    (if P then some a else none).bind f = if P then f a else none := by
  by_cases hP : P
  · rw [if_pos hP, if_pos hP, Option.bind_some]
  · rw [if_neg hP, if_neg hP, Option.bind_none]

section Rows
variable {α β : Type} {items : List β} {ok : β → Prop} [DecidablePred ok]

theorem row_eq (row : Nat → List Char → Option (List α × List Char)) (value : β → α)
    (text : β → String) {close : Char}
    (hmore : ∀ i ∈ items, ∀ fuel rest, row (fuel + 1) ((text i).toList ++ ',' :: rest) =
      if ok i then (row fuel rest).map fun r => (value i :: r.1, r.2) else none)
    (hlast : ∀ i ∈ items, ∀ fuel rest, row (fuel + 1) ((text i).toList ++ close :: rest) =
      if ok i then some ([value i], rest) else none)
    (nonempty : items ≠ []) {fuel : Nat} (hfuel : items.length ≤ fuel) (rest : List Char) :
    row fuel ((Text.joinWith "," (items.map text)).toList ++ close :: rest) =
      if ∀ i ∈ items, ok i then some (items.map value, rest) else none := by
  induction items generalizing fuel with
  | nil => exact absurd rfl nonempty
  | cons i items ih =>
    obtain ⟨fuel, rfl⟩ := Nat.exists_eq_add_of_le' (Nat.le_trans (Nat.le_add_left 1 _) hfuel)
    cases items with
    | nil =>
      have hi := hlast i (List.mem_cons_self ..) fuel rest
      have hjoin : Text.joinWith "," ([i].map text) = text i := rfl
      rw [hjoin, hi]
      exact if_congr List.forall_mem_singleton.symm rfl rfl
    | cons j items =>
      have hi := hmore i (List.mem_cons_self ..) fuel
      have hrest := ih (fun k hk => hmore k (List.mem_cons_of_mem _ hk))
        (fun k hk => hlast k (List.mem_cons_of_mem _ hk)) (List.cons_ne_nil _ _)
        (Nat.le_of_succ_le_succ hfuel)
      have hjoin : (Text.joinWith "," ((i :: j :: items).map text)).toList ++ close :: rest =
          (text i).toList ++ ',' ::
            ((Text.joinWith "," ((j :: items).map text)).toList ++ close :: rest) := by
        simp [Text.joinWith]
      rw [hjoin, hi]
      by_cases hok : ok i
      · by_cases hall : ∀ k ∈ j :: items, ok k
        · rw [if_pos hok, hrest, if_pos hall, if_pos (List.forall_mem_cons.2 ⟨hok, hall⟩)]
          rfl
        · rw [if_pos hok, hrest, if_neg hall, if_neg fun h => hall (List.forall_mem_cons.1 h).2]
          rfl
      · rw [if_neg hok, if_neg fun h => hok (List.forall_mem_cons.1 h).1]

theorem map_row {size depth : Nat} {values : List α} {rest : List Char} {wrap : List α → Json}
    (hsize : size ≤ depth ↔ ∀ i ∈ items, ok i) :
    (if ∀ i ∈ items, ok i then some (values, rest) else none).map (fun r => (wrap r.1, r.2)) =
      if size ≤ depth then some (wrap values, rest) else none := by
  rw [Option.map_eq_bind, ite_some_bind]
  exact if_congr hsize.symm rfl rfl

end Rows

section Containers
variable {nested : List Char → Option (Json × List Char)} {fuel depth : Nat} {c : Char}
  {rest cs : List Char}

theorem skipBlanks_cons (h : isBlank c = false) (cs : List Char) : skipBlanks (c :: cs) = c :: cs :=
  List.dropWhile_cons_of_neg (by rw [h]; exact Bool.false_ne_true)

theorem readArray_cons (hblank : isBlank c = false) (hclose : c ≠ ']') :
    readArray nested fuel (c :: cs) =
      (readItems nested fuel (c :: cs)).map fun r => (array r.1, r.2) := by
  rw [readArray, skipBlanks_cons hblank]
  split
  next heq => exact absurd (List.cons.inj heq).1 hclose
  next => rfl

theorem readObject_cons (hblank : isBlank c = false) (hclose : c ≠ '\x7d') :
    readObject nested fuel (c :: cs) =
      (readMembers nested fuel (c :: cs)).map fun r => (object r.1, r.2) := by
  rw [readObject, skipBlanks_cons hblank]
  split
  next heq => exact absurd (List.cons.inj heq).1 hclose
  next => rfl

section Steps
variable {text : List Char} {v : Json} {P : Prop} [Decidable P]
  (hv : ∀ rest, nested (text ++ rest) = if P then some (v, rest) else none)
include hv

theorem readItems_more (fuel : Nat) (rest : List Char) :
    readItems nested (fuel + 1) (text ++ ',' :: rest) =
      if P then (readItems nested fuel rest).map fun r => (v :: r.1, r.2) else none := by
  rw [readItems, hv]
  change (if P then some (v, _) else none).bind _ = _
  rw [ite_some_bind, Option.map_eq_bind]
  rfl

theorem readItems_last (fuel : Nat) (rest : List Char) :
    readItems nested (fuel + 1) (text ++ ']' :: rest) =
      if P then some ([v], rest) else none := by
  rw [readItems, hv]
  exact ite_some_bind ..

theorem readMembers_more (key : String) (fuel : Nat) (rest : List Char) :
    readMembers nested (fuel + 1) ((quote key).toList ++ ':' :: (text ++ ',' :: rest)) =
      if P then (readMembers nested fuel rest).map fun r => ((key, v) :: r.1, r.2) else none := by
  rw [readMembers, quote_toList]
  change (readString (key.toList.flatMap escapeChar ++ ['"'] ++
    ':' :: (text ++ ',' :: rest))).bind _ = _
  rw [List.append_assoc, List.singleton_append, readString_escaped]
  change (nested (text ++ ',' :: rest)).bind _ = _
  rw [hv, ite_some_bind, Option.map_eq_bind]
  rfl

theorem readMembers_last (key : String) (fuel : Nat) (rest : List Char) :
    readMembers nested (fuel + 1) ((quote key).toList ++ ':' :: (text ++ '\x7d' :: rest)) =
      if P then some ([(key, v)], rest) else none := by
  rw [readMembers, quote_toList]
  change (readString (key.toList.flatMap escapeChar ++ ['"'] ++
    ':' :: (text ++ '\x7d' :: rest))).bind _ = _
  rw [List.append_assoc, List.singleton_append, readString_escaped]
  change (nested (text ++ '\x7d' :: rest)).bind _ = _
  rw [hv, ite_some_bind]
  rfl

end Steps
end Containers

section Whole
variable {v : Json} {text : String} {fuel : Nat}

def Reads (fuel : Nat) (text : String) (v : Json) : Prop :=
  ∀ depth rest, readWithin fuel depth (text.toList ++ rest) =
    if nesting v ≤ depth then some (v, rest) else none

theorem Reads.bool (value : Bool) : Reads fuel (PortableType.jsonBool value) (.bool value) := by
  intro depth rest
  have hflat : nesting (.bool value) ≤ depth := Nat.zero_le depth
  rw [readWithin, if_pos hflat]
  cases value <;> rfl

theorem Reads.string (value : String) : Reads fuel (quote value) (.string value) := by
  intro depth rest
  have hflat : nesting (.string value) ≤ depth := Nat.zero_le depth
  rw [readWithin, quote_toList, if_pos hflat]
  change (readString (value.toList.flatMap escapeChar ++ ['"'] ++ rest)).map _ = _
  rw [List.append_assoc, List.singleton_append, readString_escaped]
  rfl

def Starts (text : String) : Prop :=
  ∃ c cs, text.toList = c :: cs ∧ isBlank c = false ∧ c ≠ ']' ∧ c ≠ '\x7d'

theorem starts_quote (value : String) : Starts (quote value) :=
  ⟨'"', _, quote_toList value, by decide⟩

theorem Starts.append (h : Starts text) (tail : String) : Starts (text ++ tail) := by
  obtain ⟨c, cs, htext, hc⟩ := h
  exact ⟨c, cs ++ tail.toList, by rw [String.toList_append, htext, List.cons_append], hc⟩

theorem Writes.starts (h : Writes v text) : Starts text := by
  have hbracket : Starts "[" := ⟨'[', [], rfl, by decide⟩
  have hbrace : Starts "\x7b" := ⟨'\x7b', [], rfl, by decide⟩
  cases h with
  | bool value => cases value <;> exact ⟨_, _, rfl, by decide⟩
  | string value => exact starts_quote value
  | array => exact (hbracket.append _).append _
  | object => exact (hbrace.append _).append _

theorem starts_joinWith {texts : List String} (h : ∀ t ∈ texts, Starts t) (nonempty : texts ≠ []) :
    Starts (Text.joinWith "," texts) := by
  match texts with
  | [] => exact absurd rfl nonempty
  | [t] => exact h t (List.mem_cons_self ..)
  | t :: u :: texts => exact ((h t (List.mem_cons_self ..)).append _).append _

theorem Reads.array {items : List (Json × String)} (h : ∀ i ∈ items, Reads fuel i.2 i.1)
    (hstarts : ∀ i ∈ items, Starts i.2) (hfuel : items.length ≤ fuel) :
    Reads fuel (PortableType.jsonArray (items.map (·.2))) (.array (items.map (·.1))) := by
  intro depth rest
  have htext : (PortableType.jsonArray (items.map (·.2))).toList ++ rest =
      '[' :: ((Text.joinWith "," (items.map (·.2))).toList ++ ']' :: rest) := by
    simp [PortableType.jsonArray]
  rw [htext, readWithin]
  cases depth with
  | zero => exact (if_neg (Nat.not_succ_le_zero _)).symm
  | succ depth =>
    change readArray (readWithin fuel depth) fuel _ = _
    rcases eq_or_ne items [] with rfl | nonempty
    · exact (if_pos (Nat.succ_le_succ (Nat.zero_le depth))).symm
    · have hjoin : Starts (Text.joinWith "," (items.map (·.2))) :=
        starts_joinWith (List.forall_mem_map.2 hstarts) (by simpa using nonempty)
      obtain ⟨c, cs, hcs, hblank, hclose, -⟩ := hjoin
      have hitems := row_eq (readItems (readWithin fuel depth)) (·.1) (·.2)
        (fun i hi => readItems_more (h i hi depth)) (fun i hi => readItems_last (h i hi depth))
        nonempty hfuel rest
      rw [hcs, List.cons_append] at hitems ⊢
      rw [readArray_cons hblank hclose, hitems]
      refine map_row (Nat.succ_le_succ_iff.trans (nestingAll_le_iff.trans ?_))
      exact List.forall_mem_map

theorem Reads.object {members : List (String × Json × String)}
    (h : ∀ m ∈ members, Reads fuel m.2.2 m.2.1) (hfuel : members.length ≤ fuel) :
    Reads fuel (PortableType.jsonObject (members.map fun m => (m.1, m.2.2)))
      (.object (members.map fun m => (m.1, m.2.1))) := by
  intro depth rest
  have htext : (PortableType.jsonObject (members.map fun m => (m.1, m.2.2))).toList ++ rest =
      '\x7b' :: ((Text.joinWith "," (members.map fun m => quote m.1 ++ ":" ++ m.2.2)).toList ++
        '\x7d' :: rest) := by
    simp [PortableType.jsonObject, Function.comp_def]
  have hmember (m : String × Json × String) (tail : List Char) :
      (quote m.1 ++ ":" ++ m.2.2).toList ++ tail =
        (quote m.1).toList ++ ':' :: (m.2.2.toList ++ tail) := by
    simp
  rw [htext, readWithin]
  cases depth with
  | zero => exact (if_neg (Nat.not_succ_le_zero _)).symm
  | succ depth =>
    change readObject (readWithin fuel depth) fuel _ = _
    rcases eq_or_ne members [] with rfl | nonempty
    · exact (if_pos (Nat.succ_le_succ (Nat.zero_le depth))).symm
    · have hjoin : Starts (Text.joinWith "," (members.map fun m => quote m.1 ++ ":" ++ m.2.2)) :=
        starts_joinWith (List.forall_mem_map.2 fun m _ => ((starts_quote m.1).append _).append _)
          (by simpa using nonempty)
      obtain ⟨c, cs, hcs, hblank, -, hclose⟩ := hjoin
      have hmembers := row_eq (readMembers (readWithin fuel depth))
        (fun m : String × Json × String => (m.1, m.2.1)) (fun m => quote m.1 ++ ":" ++ m.2.2)
        (fun m hm fuel rest => by rw [hmember]; exact readMembers_more (h m hm depth) m.1 fuel rest)
        (fun m hm fuel rest => by rw [hmember]; exact readMembers_last (h m hm depth) m.1 fuel rest)
        nonempty hfuel rest
      rw [hcs, List.cons_append] at hmembers ⊢
      rw [readObject_cons hblank hclose, hmembers]
      refine map_row (Nat.succ_le_succ_iff.trans (nestingMembers_le_iff.trans ?_))
      exact List.forall_mem_map

theorem length_joinWith {texts : List String} (h : ∀ t ∈ texts, Starts t) :
    texts.length ≤ (Text.joinWith "," texts).toList.length ∧
      ∀ t ∈ texts, t.toList.length ≤ (Text.joinWith "," texts).toList.length := by
  induction texts with
  | nil => exact ⟨Nat.le_refl _, List.forall_mem_nil _⟩
  | cons t texts ih =>
    obtain ⟨ht, htexts⟩ := List.forall_mem_cons.1 h
    obtain ⟨c, cs, hcs, -⟩ := ht
    cases texts with
    | nil =>
      refine ⟨?_, List.forall_mem_singleton.2 (Nat.le_refl _)⟩
      rw [Text.joinWith, hcs]
      exact Nat.succ_le_succ (Nat.zero_le _)
    | cons u texts =>
      obtain ⟨hcount, hlength⟩ := ih htexts
      have hjoin : (Text.joinWith "," (t :: u :: texts)).toList.length =
          t.toList.length + ((Text.joinWith "," (u :: texts)).toList.length + 1) := by
        simp [Text.joinWith]
      rw [hjoin]
      refine ⟨?_, List.forall_mem_cons.2 ⟨Nat.le_add_right _ _, fun v hv => ?_⟩⟩
      · rw [List.length_cons]
        omega
      · have hv := hlength v hv
        omega

theorem length_le_around (a b c : String) : b.toList.length ≤ (a ++ b ++ c).toList.length := by
  rw [String.toList_append, String.toList_append, List.length_append, List.length_append]
  omega

theorem Writes.reads (h : Writes v text) (hfuel : text.toList.length ≤ fuel) :
    Reads fuel text v := by
  induction h with
  | bool value => exact .bool value
  | string value => exact .string value
  | @array items hitems ih =>
    have hstarts : ∀ i ∈ items, Starts i.2 := fun i hi => (hitems i hi).starts
    obtain ⟨hcount, hlength⟩ := length_joinWith (List.forall_mem_map.2 hstarts)
    have hinner := Nat.le_trans (length_le_around "[" _ "]") hfuel
    rw [List.length_map] at hcount
    rw [List.forall_mem_map] at hlength
    exact .array (fun i hi => ih i hi (Nat.le_trans (hlength i hi) hinner)) hstarts
      (Nat.le_trans hcount hinner)
  | @object members hmembers ih =>
    have hstarts : ∀ m ∈ members, Starts (quote m.1 ++ ":" ++ m.2.2) := fun m _ =>
      ((starts_quote m.1).append _).append _
    obtain ⟨hcount, hlength⟩ := length_joinWith (List.forall_mem_map.2 hstarts)
    have hinner := Nat.le_trans (length_le_around "\x7b" _ "\x7d") hfuel
    rw [List.map_map] at hinner
    rw [List.length_map] at hcount
    rw [List.forall_mem_map] at hlength
    refine .object (fun m hm => ih m hm ?_) (Nat.le_trans hcount hinner)
    have hvalue := length_le_around (quote m.1 ++ ":") m.2.2 ""
    rw [String.append_empty] at hvalue
    exact Nat.le_trans hvalue (Nat.le_trans (hlength m hm) hinner)

theorem parse?_of_writes (h : Writes v text) :
    parse? text = if nesting v ≤ nestingLimit then some v else none := by
  have hread := h.reads (Nat.le_refl _) nestingLimit []
  rw [List.append_nil] at hread
  rw [parse?, hread]
  exact ite_some_bind ..

end Whole

end TemplateCheck.Json
