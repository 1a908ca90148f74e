import StylePurge.Report

/-!
The reduction as a percentage with one decimal place. The exact value of the
floating-point number is rounded; a value halfway between two neighbours goes to
the even one. A negative value keeps its sign even when it rounds to zero.
-/

namespace StylePurge.Report

def roundDiv (numerator denominator : Nat) : Nat :=
  let quotient := numerator / denominator
  let twice := 2 * (numerator % denominator)
  if twice < denominator then quotient
  else if denominator < twice then quotient + 1
  else if quotient % 2 = 0 then quotient
  else quotient + 1

def powerOfTwo (exponent : Nat) : Nat := Nat.pow 2 exponent

/-- A finite binary number: a mantissa times a power of two whose exponent is
`shift - 1075`. -/
structure Binary where
  negative : Bool
  mantissa : Nat
  shift : Nat
  deriving DecidableEq, Repr

def Binary.ofBits (bits : Nat) : Binary :=
  let exponent := bits / powerOfTwo 52 % powerOfTwo 11
  let fraction := bits % powerOfTwo 52
  if exponent = 0 then ⟨powerOfTwo 63 ≤ bits, fraction, 1⟩
  else ⟨powerOfTwo 63 ≤ bits, fraction + powerOfTwo 52, exponent⟩

/-- Ten times the magnitude, rounded to a whole number. -/
def Binary.tenths (binary : Binary) : Nat :=
  roundDiv (binary.mantissa * 10 * powerOfTwo binary.shift) (powerOfTwo 1075)

def Binary.text (binary : Binary) : String :=
  let sign := if binary.negative then "-" else ""
  s!"{sign}{binary.tenths / 10}.{binary.tenths % 10}"

def percentText (statistics : Statistics) : String :=
  (Binary.ofBits (statistics.reductionRatio * 100.0).toBits.toNat).text

end StylePurge.Report
