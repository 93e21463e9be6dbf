import YangFormatter.Number.Rounding

/-! # Floats

Binary floats of 64 bits, by their values. Zero has a sign, a result that is too
large is infinite, and an operation without a result gives a float that is no
number. All operations round to the nearest float.
-/

namespace YangFormatter

/-- A 64-bit binary float. -/
inductive Double where
  /-- A number, by its sign and its size. -/
  | finite (negative : Bool) (size : Rat)
  /-- What lies beyond the largest number. -/
  | infinite (negative : Bool)
  /-- What is no number. -/
  | undefined
deriving DecidableEq, Repr

namespace Double

/-- The float nearest to a number with a sign and a size. -/
def ofSize (negative : Bool) (size : Rat) : Double :=
  let nearest := Rounding.nearestSize size.num.natAbs size.den
  if (Nat.pow 2 1024 : Nat) ≤ nearest then .infinite negative else .finite negative nearest

/-- The float nearest to a number. -/
def ofRat (number : Rat) : Double :=
  ofSize (number < 0) number

/-- The float nearest to a natural number. -/
def ofNat (number : Nat) : Double :=
  ofRat number

/-- Whether a float is a number. -/
def isFinite : Double → Bool
  | .finite _ _ => true
  | .infinite _ | .undefined => false

/-- Whether a float is one of the two zeros. -/
def isZero : Double → Bool
  | .finite _ size => size = 0
  | .infinite _ | .undefined => false

/-- The number that a float is, if it is one. -/
def value : Double → Rat
  | .finite negative size => if negative then -size else size
  | .infinite _ | .undefined => 0

/-- The opposite. -/
def neg : Double → Double
  | .finite negative size => .finite (!negative) size
  | .infinite negative => .infinite (!negative)
  | .undefined => .undefined

/-- The sum. Opposite numbers cancel to the positive zero. -/
def add : Double → Double → Double
  | .undefined, _ | _, .undefined => .undefined
  | .infinite first, .infinite second => if first = second then .infinite first else .undefined
  | .infinite negative, .finite _ _ | .finite _ _, .infinite negative => .infinite negative
  | .finite negative size, .finite otherNegative otherSize =>
      let sum := value (.finite negative size) + value (.finite otherNegative otherSize)
      if sum = 0 then .finite (negative && otherNegative) 0 else ofRat sum

/-- The difference. -/
def sub (first second : Double) : Double :=
  first.add second.neg

/-- The quotient by a divisor that is not zero. -/
def div : Double → Double → Double
  | .undefined, _ | _, .undefined | .infinite _, .infinite _ => .undefined
  | .infinite negative, .finite otherNegative _ => .infinite (negative != otherNegative)
  | .finite negative _, .infinite otherNegative => .finite (negative != otherNegative) 0
  | .finite negative size, .finite otherNegative otherSize =>
      ofSize (negative != otherNegative) (size / otherSize)

/-- Whether one float is below another. What is no number is below nothing, and
nothing is below it. -/
def below : Double → Double → Bool
  | .undefined, _ | _, .undefined => false
  | .infinite negative, other => negative && other != .infinite true
  | .finite _ _, .infinite negative => !negative
  | .finite negative size, .finite otherNegative otherSize =>
      value (.finite negative size) < value (.finite otherNegative otherSize)

/-- The mean of some floats: the float nearest to the exact mean. -/
def mean (floats : List Double) : Double :=
  if floats.all isFinite then
    ofRat ((floats.map value).foldr (· + ·) 0 / floats.length)
  else
    ((floats.filter (!·.isFinite)).foldl add (.finite false 0)).div (ofNat floats.length)

/-- A float with a fixed number of decimal places, at least one. -/
def fixed (places : Nat) : Double → String
  | .finite negative size =>
      (if negative then "-" else "") ++ Rounding.decimal places size.num.natAbs size.den
  | .infinite negative => if negative then "-inf" else "inf"
  | .undefined => "nan"

end Double

end YangFormatter
