import TemplateCheck.Binary64.Shortest

/-!
The written form of a value: the shortest digits that read back, positional from `0.0001` up to
below `10 ^ 16` with at least one decimal, and with an exponent outside that range.
-/

namespace TemplateCheck.Binary64

def dropTrailingZeros (digits : List Char) : List Char :=
  (digits.reverse.dropWhile (· == '0')).reverse

def Decimal.expand (d : Decimal) : List Char × Int :=
  let digits := Nat.toDigits 10 d.digits
  (dropTrailingZeros digits, d.exponent + digits.length)

def positional (digits : List Char) (point : Int) : List Char :=
  if point ≤ 0 then '0' :: '.' :: (List.replicate (-point).toNat '0' ++ digits)
  else
    let whole := digits.take point.toNat
    let whole := whole ++ List.replicate (point.toNat - whole.length) '0'
    let decimals := digits.drop point.toNat
    whole ++ '.' :: (if decimals.isEmpty then ['0'] else decimals)

def scientific (digits : List Char) (point : Int) : List Char :=
  let decimals := digits.drop 1
  let exponent := (toString (point - 1)).toList
  digits.take 1 ++ (if decimals.isEmpty then [] else '.' :: decimals) ++ 'e' :: exponent

def unsignedText (x : Binary64) : List Char :=
  if x.isZero then ['0', '.', '0']
  else if x.isInfinite then ['i', 'n', 'f']
  else
    let (digits, point) := x.shortest.expand
    if -4 < point ∧ point ≤ 16 then positional digits point else scientific digits point

def text (x : Binary64) : String :=
  if x.isNaN then "NaN"
  else String.ofList (if x.isNegative then '-' :: x.unsignedText else x.unsignedText)

end TemplateCheck.Binary64
