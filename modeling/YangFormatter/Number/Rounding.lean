/-! # Rounding

Rounding to the nearest whole number, to the nearest number that has the precision
of a 64-bit binary float, and to a fixed number of decimal places. A number halfway
between two neighbours goes to the even one.
-/

namespace YangFormatter.Rounding

/-- The whole number nearest to a quotient; the even one of two. -/
def nearestQuotient (numerator denominator : Nat) : Nat :=
  let quotient := numerator / denominator
  let twice := 2 * (numerator % denominator)
  if twice < denominator then quotient
  else if denominator < twice then quotient + 1
  else quotient + quotient % 2

/-- The greatest power of two that is not above a positive quotient. -/
def binaryExponent (numerator denominator : Nat) : Int :=
  let guess : Int := Nat.log2 numerator - Nat.log2 denominator
  let reached :=
    if 0 ≤ guess then denominator * Nat.pow 2 guess.toNat ≤ numerator
    else denominator ≤ numerator * Nat.pow 2 (-guess).toNat
  if reached then guess else guess - 1

/-- The distance between neighbouring floats, as a power of two, at a positive
quotient: such that 53 bits are left, but no finer than the finest. -/
def unitExponent (numerator denominator : Nat) : Int :=
  max (binaryExponent numerator denominator - 52) (-1074)

/-- The nearest number to a quotient that has the precision of a 64-bit float. There
is no bound to its size. -/
def nearestSize (numerator denominator : Nat) : Rat :=
  let unit := unitExponent numerator denominator
  if 0 ≤ unit then
    let scale := Nat.pow 2 unit.toNat
    (nearestQuotient numerator (denominator * scale) * scale : Nat)
  else
    let scale := Nat.pow 2 (-unit).toNat
    mkRat (nearestQuotient (numerator * scale) denominator) scale

/-- A quotient with a fixed number of decimal places, at least one. -/
def decimal (places numerator denominator : Nat) : String :=
  let scale := Nat.pow 10 places
  let units := nearestQuotient (numerator * scale) denominator
  let digits := toString (units % scale)
  let zeros := String.ofList (List.replicate (places - digits.length) '0')
  s!"{units / scale}.{zeros}{digits}"

end YangFormatter.Rounding
