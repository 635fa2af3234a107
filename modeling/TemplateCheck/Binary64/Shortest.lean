import TemplateCheck.Binary64.Basic

/-!
The shortest decimal text that reads back as the same value. All quantities are multiples of
`2 ^ -1076`, in exact arithmetic: the value is `4 * significand * 2 ^ scale` of them, and the
numbers that round to it fill an interval around it whose ends belong to it exactly when the
significand is even.
-/

namespace TemplateCheck.Binary64

def lowerEnd (x : Binary64) : Nat :=
  (4 * x.significand - if x.fraction = 0 ∧ 1 < x.exponentField then 1 else 2) * Nat.pow 2 x.scale

def centre (x : Binary64) : Nat := 4 * x.significand * Nat.pow 2 x.scale

def upperEnd (x : Binary64) : Nat := (4 * x.significand + 2) * Nat.pow 2 x.scale

structure Decimal where
  digits : Nat
  exponent : Int
deriving DecidableEq, Repr

def gridUnit (exponent : Int) : Nat × Nat :=
  if 0 ≤ exponent then (Nat.pow 2 1076 * Nat.pow 10 exponent.toNat, 1)
  else (Nat.pow 2 1076, Nat.pow 10 (-exponent).toNat)

def readsBack (x : Binary64) (d : Decimal) : Bool :=
  let (num, den) := gridUnit d.exponent
  let point := d.digits * num
  if x.significand % 2 = 0 then x.lowerEnd * den ≤ point && point ≤ x.upperEnd * den
  else x.lowerEnd * den < point && point < x.upperEnd * den

def gridPoint? (x : Binary64) (exponent : Int) : Option Decimal :=
  let (num, den) := gridUnit exponent
  let below : Decimal := ⟨x.centre * den / num, exponent⟩
  let above : Decimal := ⟨x.centre * den / num + 1, exponent⟩
  match x.readsBack below, x.readsBack above with
  | true, true => if 2 * (x.centre * den % num) < num then some below else some above
  | true, false => some below
  | false, true => some above
  | false, false => none

def magnitude (x : Binary64) : Int :=
  ((Nat.toDigits 10 (x.centre * Nat.pow 10 400 / Nat.pow 2 1076)).length : Int) - 400

/-- The first of the grids with 1, 2, …, 17 digits that has a point reading back. -/
def shortest (x : Binary64) : Decimal :=
  ((List.range 17).findSome? fun n => x.gridPoint? (x.magnitude - (n + 1 : Nat))).getD ⟨0, 0⟩

end TemplateCheck.Binary64
