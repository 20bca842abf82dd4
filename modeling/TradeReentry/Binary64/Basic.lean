/-!
Binary floating-point numbers of 64 bits, in exact integer arithmetic.

A finite number is an integer multiple of the smallest positive one, 2^-1074; that integer is its
`scaled` value. The same formula gives an infinity the value ±2^2098, which lies beyond every finite
one, so that comparisons are comparisons of scaled values. `ofUnits` encodes a multiple that has an
encoding, and `nearest` rounds any fraction of units to the nearest number, a tie going to the even
significand.
-/

namespace TradeReentry

-- Powers of numbers are those of the core library, whatever is imported beside it.
attribute [scoped instance (high), default_instance (high + 1)] instPowNat

/-- A binary floating-point number, given by its 64 bits. -/
structure Binary64 where
  bits : UInt64
deriving DecidableEq, Repr

namespace Binary64

/-! ## Fields -/

/-- The bits as a natural number. -/
def word (x : Binary64) : Nat := x.bits.toNat

def isNegative (x : Binary64) : Bool := x.word / 2 ^ 63 = 1

def exponentField (x : Binary64) : Nat := x.word / 2 ^ 52 % 2 ^ 11

def fraction (x : Binary64) : Nat := x.word % 2 ^ 52

def isFinite (x : Binary64) : Bool := x.exponentField ≠ 2047

def isNaN (x : Binary64) : Bool := x.exponentField = 2047 && x.fraction ≠ 0

def isInfinite (x : Binary64) : Bool := x.exponentField = 2047 && x.fraction = 0

/-- The magnitude in units of 2^-1074. -/
def units (x : Binary64) : Nat :=
  if x.exponentField = 0 then x.fraction
  else (2 ^ 52 + x.fraction) * 2 ^ (x.exponentField - 1)

/-- The signed value in units of 2^-1074. -/
def scaled (x : Binary64) : Int := if x.isNegative then -(x.units : Int) else x.units

/-! ## Encoding -/

/-- The number with a sign and the lower 63 bits. -/
def ofFields (negative : Bool) (rest : Nat) : Binary64 :=
  ⟨UInt64.ofNat ((if negative then 2 ^ 63 else 0) + rest)⟩

/-- The units in one, 2^1074. -/
abbrev unitsInOne : Nat := 2 ^ 1074

/-- The magnitude of an infinity, 2^1024, in units. -/
abbrev unitsInInfinity : Nat := 2 ^ 2098

def zero : Binary64 := ⟨0⟩

/-- The infinity of a sign. -/
def infinity (negative : Bool) : Binary64 := ofFields negative (2047 * 2 ^ 52)

/-- The quiet NaN of a sign. -/
def nan (negative : Bool) : Binary64 := ofFields negative (2047 * 2 ^ 52 + 2 ^ 51)

/-- The distance between neighbours at a magnitude, in units. -/
def spacing (units : Nat) : Nat := 2 ^ (units.log2 - 52)

/-- Whether a magnitude has an encoding as a finite number. -/
def Representable (units : Nat) : Prop := units < unitsInInfinity ∧ spacing units ∣ units

/-- The number of a sign and a representable magnitude; a magnitude beyond all finite ones gives
the infinity. -/
def ofUnits (negative : Bool) (units : Nat) : Binary64 :=
  if units < 2 ^ 52 then ofFields negative units
  else if units < unitsInInfinity then
    ofFields negative ((units.log2 - 51) * 2 ^ 52 + (units / spacing units - 2 ^ 52))
  else infinity negative

/-- The quotient rounded to the nearest integer, a tie going to the even one. -/
def roundQuotient (num den : Nat) : Nat :=
  let below := num / den
  let twice := 2 * (num % den)
  if twice < den then below
  else if den < twice then below + 1
  else below + below % 2

/-- A fraction of units rounded to a representable magnitude, or beyond all of them. -/
def nearestUnits (num den : Nat) : Nat :=
  roundQuotient num (den * spacing (num / den)) * spacing (num / den)

/-- The number nearest to a fraction of units, a tie going to the even significand. -/
def nearest (negative : Bool) (num den : Nat) : Binary64 := ofUnits negative (nearestUnits num den)

/-- The integer that is a magnitude, as a number of a sign. -/
def ofNat (n : Nat) : Binary64 := nearest false (n * unitsInOne) 1

/-- The number nearest to an integer. -/
def ofInt (i : Int) : Binary64 := nearest (i < 0) (i.natAbs * unitsInOne) 1

/-- The number nearest to a decimal fraction, such as `0.05` as 5 over 10^2. -/
def ofDecimal (digits : Nat) (places : Nat) : Binary64 :=
  nearest false (digits * unitsInOne) (10 ^ places)

def one : Binary64 := ofNat 1

/-! ## Order -/

/-- A NaN is not below anything, nor is anything below it. -/
instance : LT Binary64 :=
  ⟨fun x y => x.isNaN = false ∧ y.isNaN = false ∧ x.scaled < y.scaled⟩

/-- The two zeros are at most each other; a NaN is not at most anything. -/
instance : LE Binary64 :=
  ⟨fun x y => x.isNaN = false ∧ y.isNaN = false ∧ x.scaled ≤ y.scaled⟩

instance (x y : Binary64) : Decidable (x < y) :=
  inferInstanceAs (Decidable (x.isNaN = false ∧ y.isNaN = false ∧ x.scaled < y.scaled))

instance (x y : Binary64) : Decidable (x ≤ y) :=
  inferInstanceAs (Decidable (x.isNaN = false ∧ y.isNaN = false ∧ x.scaled ≤ y.scaled))

/-! ## Arithmetic

A result is the exact one, rounded to the nearest number. A NaN operand is passed on, the first one
before the second; an operation without a value gives the negative NaN.
-/

/-- The number of an exact sum or product; an exact zero takes the given sign. -/
def ofScaled (zeroSign : Bool) (value : Int) (den : Nat) : Binary64 :=
  if value = 0 then ofFields zeroSign 0 else nearest (value < 0) value.natAbs den

instance : Neg Binary64 := ⟨fun x => ⟨x.bits ^^^ 0x8000000000000000⟩⟩

def add (x y : Binary64) : Binary64 :=
  if x.isNaN then x
  else if y.isNaN then y
  else if x.isInfinite then
    if y.isInfinite && x.isNegative != y.isNegative then nan true else x
  else if y.isInfinite then y
  else ofScaled (x.isNegative && y.isNegative) (x.scaled + y.scaled) 1

instance : Add Binary64 := ⟨add⟩

/-- The sum with the negated second operand, except that a NaN is passed on as it is. -/
def sub (x y : Binary64) : Binary64 := if y.isNaN && !x.isNaN then y else add x (-y)

instance : Sub Binary64 := ⟨sub⟩

def mul (x y : Binary64) : Binary64 :=
  let negative := x.isNegative != y.isNegative
  if x.isNaN then x
  else if y.isNaN then y
  else if x.isInfinite || y.isInfinite then
    if x.units = 0 || y.units = 0 then nan true else infinity negative
  else nearest negative (x.units * y.units) unitsInOne

instance : Mul Binary64 := ⟨mul⟩

def div (x y : Binary64) : Binary64 :=
  let negative := x.isNegative != y.isNegative
  if x.isNaN then x
  else if y.isNaN then y
  else if x.isInfinite then
    if y.isInfinite then nan true else infinity negative
  else if y.isInfinite then ofFields negative 0
  else if y.units = 0 then
    if x.units = 0 then nan true else infinity negative
  else nearest negative (x.units * unitsInOne) y.units

instance : Div Binary64 := ⟨div⟩

/-- The nearest integer, a half going away from zero. -/
def round (x : Binary64) : Binary64 :=
  if x.isFinite then
    ofUnits x.isNegative ((x.units + unitsInOne / 2) / unitsInOne * unitsInOne)
  else x

/-- The value itself if it lies between two bounds, else the bound that it passes. -/
def clamp (x low high : Binary64) : Binary64 :=
  if x < low then low else if high < x then high else x

/-- The integer that a number is, if it is one. -/
def toInt? (x : Binary64) : Option Int :=
  if x.isFinite && x.units % unitsInOne = 0 then some (x.scaled / unitsInOne) else none

end Binary64

end TradeReentry
