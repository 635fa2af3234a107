/-!
Natural numbers rounded to binary64, to the nearest value and in a tie to the even one. The range
of the format is kept apart: `nearest` knows no largest value, and `overflowLimit` says which
numbers are too large.
-/

namespace TemplateCheck.Binary64

def nearest (n : Nat) : Nat :=
  let unit := Nat.pow 2 (n.log2 - 52)
  let below := n / unit
  let rest := 2 * (n % unit)
  if rest < unit ∨ rest = unit ∧ below % 2 = 0 then below * unit else (below + 1) * unit

/-- Halfway from the largest finite value to `2 ^ 1024`: numbers below round to a finite value, all
others to infinity. -/
def overflowLimit : Nat := Nat.pow 2 1024 - Nat.pow 2 970

end TemplateCheck.Binary64
