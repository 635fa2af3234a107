import TemplateCheck.Binary64.Rounding
import TemplateCheck.Json.Basic

/-!
Numbers in JSON text. Of a long number the leading digits count as far as they stay below
`2 ^ 64`; the digits after them are worth a power of ten only. These digits, the power of ten and
their product are each rounded to binary64, and a product that has no finite value is a fault.
-/

namespace TemplateCheck.Json

structure Numeral where
  whole : List Char
  decimals : List Char
  exponent : Option Int

def appendDigits : Nat → List Char → Nat × Nat
  | n, [] => (n, 0)
  | n, c :: rest =>
    let longer := 10 * n + (c.toNat - '0'.toNat)
    if longer < Nat.pow 2 64 then
      let (result, count) := appendDigits longer rest
      (result, count + 1)
    else (n, 0)

namespace Numeral

/-- The leading digits and the power of ten that they are multiplied with. Decimals still count
behind digits of the whole part that did not. -/
def scaled (n : Numeral) : Nat × Int :=
  let (leading, wholeCount) := appendDigits 0 n.whole
  let (leading, decimalCount) := appendDigits leading n.decimals
  (leading, n.exponent.getD 0 + n.whole.length - wholeCount - decimalCount)

def isFinite (n : Numeral) : Bool :=
  let (leading, power) := n.scaled
  leading == 0 || power < 0 ||
    (power ≤ 308 &&
      Binary64.nearest leading * Binary64.nearest (Nat.pow 10 power.toNat) < Binary64.overflowLimit)

def natural? (n : Numeral) : Option Nat :=
  let (value, count) := appendDigits 0 n.whole
  if n.decimals.isEmpty ∧ n.exponent.isNone ∧ count = n.whole.length then some value else none

end Numeral
end TemplateCheck.Json
