/-!
# Binary64 numbers

A floating-point number is kept as its 64 bits, so that two numbers can be told apart exactly and the
sign of a zero is never lost. Comparison follows IEEE 754: no NaN equals anything, itself included, and
the two zeros are equal.
-/

namespace GraphQuery

/-- A binary64 floating-point number, as its bits. -/
structure Binary64 where
  bits : UInt64

namespace Binary64

/-- Whether the sign bit is set. -/
def isNegative (x : Binary64) : Bool :=
  x.bits.toNat / Nat.pow 2 63 == 1

/-- The eleven bits of the biased exponent. -/
def exponentField (x : Binary64) : Nat :=
  x.bits.toNat / Nat.pow 2 52 % Nat.pow 2 11

/-- The fifty-two bits of the fraction. -/
def fractionField (x : Binary64) : Nat :=
  x.bits.toNat % Nat.pow 2 52

/-- Whether the number is neither infinite nor a NaN. -/
def isFinite (x : Binary64) : Bool :=
  x.exponentField != 2047

/-- Whether the bits stand for no number. -/
def isNaN (x : Binary64) : Bool :=
  !x.isFinite && x.fractionField != 0

/-- Whether the number is one of the two zeros. -/
def isZero (x : Binary64) : Bool :=
  x.exponentField == 0 && x.fractionField == 0

/-- The integer `m` of the form `m * 2 ^ power` of a finite number's magnitude. -/
def significand (x : Binary64) : Nat :=
  if x.exponentField = 0 then x.fractionField else Nat.pow 2 52 + x.fractionField

/-- The exponent `q` of the form `significand * 2 ^ q` of a finite number's magnitude. -/
def power (x : Binary64) : Int :=
  if x.exponentField = 0 then -1074 else x.exponentField - 1075

/-- Equality of numbers: a NaN equals nothing and the two zeros are equal. -/
protected def beq (x y : Binary64) : Bool :=
  !x.isNaN && !y.isNaN && (x.bits == y.bits || (x.isZero && y.isZero))

instance : BEq Binary64 := ⟨Binary64.beq⟩

end Binary64

end GraphQuery
