import OnyxDB.Engine.Value

/-! Arithmetic on doubles. A finite double is an integer in units of `2^-1074`; a result is computed there
exactly and rounded to the nearest double, ties to even. -/

namespace OnyxDB.Engine.Value

namespace F64

/-- One unit of magnitude is `2^-1074`, so `1.0` has this many. -/
def unit : Nat := 2 ^ 1074

/-- The absolute value of a finite double, in units. -/
def magnitude (x : F64) : Nat :=
  if x.exponentField = 0 then x.mantissaField
  else (2 ^ 52 + x.mantissaField) * 2 ^ (x.exponentField - 1)

/-- The value of a finite double, in units. -/
def scaled (x : F64) : Int :=
  if x.isNegative then -(x.magnitude : Int) else (x.magnitude : Int)

def ofFields (negative : Bool) (fields : Nat) : F64 :=
  ⟨UInt64.ofNat ((if negative then 2 ^ 63 else 0) + fields)⟩

def infinity (negative : Bool) : F64 := ofFields negative (2047 * 2 ^ 52)

def nan : F64 := ofFields false (2047 * 2 ^ 52 + 2 ^ 51)

/-- `magnitude / 2 ^ shift`, to the nearest integer and ties to even. -/
def roundShift (magnitude shift : Nat) : Nat :=
  let quotient := magnitude / 2 ^ shift
  let excess := 2 * (magnitude % 2 ^ shift)
  if excess > 2 ^ shift ∨ (excess = 2 ^ shift ∧ quotient % 2 = 1) then quotient + 1 else quotient

/-- The double nearest to a number of units. A significand that is rounded up to `2 ^ 53` carries into
the exponent. -/
def ofMagnitude (negative : Bool) (magnitude : Nat) : F64 :=
  let shift := magnitude.log2 - 52
  let fields := shift * 2 ^ 52 + roundShift magnitude shift
  if fields < 2047 * 2 ^ 52 then ofFields negative fields else infinity negative

def ofInt (value : Int) : F64 := ofMagnitude (decide (value < 0)) (value.natAbs * unit)

/-- `x + y`. The sum of opposite numbers is a positive zero. -/
def add (x y : F64) : F64 :=
  if x.isNaN || y.isNaN then nan
  else
    match x.isFinite, y.isFinite with
    | false, false => if x.isNegative = y.isNegative then x else nan
    | false, true => x
    | true, false => y
    | true, true =>
        let sum := x.scaled + y.scaled
        ofMagnitude (if sum = 0 then x.isNegative && y.isNegative else decide (sum < 0)) sum.natAbs

/-- `x.fract() == 0.0 && x.abs() < i64::MAX as f64`; the bound rounds to `2^63`. -/
def isSmallInteger (x : F64) : Bool :=
  x.isFinite && decide (x.magnitude % unit = 0) && decide (x.magnitude < 2 ^ 63 * unit)

/-- `x as i64`, for a small integer. -/
def toInt64 (x : F64) : Int64 :=
  Int64.ofInt (if x.isNegative then -(x.magnitude / unit : Nat) else (x.magnitude / unit : Nat))

example : (ofInt 1).bits = 0x3ff0000000000000 := by decide +kernel

example : ((ofInt 5).add (ofInt (-8))).toInt64 = -3 := by decide +kernel

end F64

/-- `Number::as_f64`. -/
def JsonNumber.asF64 : JsonNumber → F64
  | .posInt n => F64.ofInt n.toNat
  | .negInt n _ => F64.ofInt n.toInt
  | .float x _ => x

/-- `Number::from` on an `i64`. -/
def JsonNumber.ofInt64 (n : Int64) : JsonNumber :=
  if negative : n < 0 then .negInt n negative else .posInt n.toUInt64

/-- `Number::from_f64`. -/
def JsonNumber.fromF64 (x : F64) : Option JsonNumber :=
  if finite : x.isFinite = true then some (.float x finite) else none

end OnyxDB.Engine.Value
