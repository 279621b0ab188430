/-! Binary floating point numbers kept as bit patterns. A finite number without its sign is
`significand · 2 ^ exponent`; everything about it is decided in exact integer arithmetic, so equality,
rounding and widening are definitions that proofs can open. -/

namespace UnitOfWork

/-- Nearest integer to `num / den`; a half goes to the even neighbour. -/
def roundDiv (num den : Nat) : Nat :=
  let quotient := num / den
  let rest := 2 * (num % den)
  if rest < den then quotient
  else if den < rest then quotient + 1
  else quotient + quotient % 2

def scaled (base significand : Nat) (exponent : Int) : Nat × Nat :=
  (significand * Nat.pow base exponent.toNat, Nat.pow base (-exponent).toNat)

/-- The widths of a binary interchange format. A magnitude is its bit pattern without the sign bit. -/
structure Format where
  fraction : Nat
  exponent : Nat
deriving DecidableEq

namespace Format

def single : Format := ⟨23, 8⟩

def double : Format := ⟨52, 11⟩

def leastExponent (format : Format) : Int := 2 - Nat.pow 2 (format.exponent - 1) - format.fraction

def binade (format : Format) : Nat := Nat.pow 2 format.fraction

def infinity (format : Format) : Nat := (Nat.pow 2 format.exponent - 1) * format.binade

def unpack (format : Format) (magnitude : Nat) : Nat × Int :=
  let field := magnitude / format.binade
  let low := magnitude % format.binade
  if field = 0 then (low, format.leastExponent)
  else (format.binade + low, format.leastExponent + (field - 1 : Nat))

/-- The magnitude nearest to `num / den`, ties to even; infinity when it is too large. Consecutive
magnitudes are consecutive integers, so a significand that rounds up to the next power of two carries
into the exponent by itself. -/
def nearest (format : Format) (num den : Nat) : Nat :=
  if num = 0 then 0
  else
    let estimate : Int := (num.log2 : Int) - den.log2
    let top := if num * Nat.pow 2 (-estimate).toNat < den * Nat.pow 2 estimate.toNat then estimate - 1 else estimate
    let exponent := max (top - format.fraction) format.leastExponent
    let significand := roundDiv (num * Nat.pow 2 (-exponent).toNat) (den * Nat.pow 2 exponent.toNat)
    min ((exponent - format.leastExponent).toNat * format.binade + significand) format.infinity

end Format

structure Single where
  bits : UInt32
deriving DecidableEq, Inhabited

structure Double where
  bits : UInt64
deriving DecidableEq, Inhabited

namespace Single

def isNegative (x : Single) : Bool := Nat.pow 2 31 ≤ x.bits.toNat

def magnitude (x : Single) : Nat := x.bits.toNat % Nat.pow 2 31

def isNaN (x : Single) : Bool := Format.single.infinity < x.magnitude

def isFinite (x : Single) : Bool := x.magnitude < Format.single.infinity

/-- Numeric equality: no number equals a NaN, and the two zeros are equal. -/
def equal (x y : Single) : Bool :=
  !x.isNaN && !y.isNaN && (x.bits == y.bits || (x.magnitude == 0 && y.magnitude == 0))

def ofMagnitude (negative : Bool) (magnitude : Nat) : Single :=
  ⟨UInt32.ofNat ((if negative then Nat.pow 2 31 else 0) + magnitude)⟩

def ofInt (n : Int) : Single := ofMagnitude (n < 0) (Format.single.nearest n.natAbs 1)

end Single

namespace Double

def isNegative (x : Double) : Bool := Nat.pow 2 63 ≤ x.bits.toNat

def magnitude (x : Double) : Nat := x.bits.toNat % Nat.pow 2 63

def isNaN (x : Double) : Bool := Format.double.infinity < x.magnitude

def isFinite (x : Double) : Bool := x.magnitude < Format.double.infinity

def equal (x y : Double) : Bool :=
  !x.isNaN && !y.isNaN && (x.bits == y.bits || (x.magnitude == 0 && y.magnitude == 0))

def ofMagnitude (negative : Bool) (magnitude : Nat) : Double :=
  ⟨UInt64.ofNat ((if negative then Nat.pow 2 63 else 0) + magnitude)⟩

def ofNat (n : Nat) : Double := ofMagnitude false (Format.double.nearest n 1)

def ofInt (n : Int) : Double := ofMagnitude (n < 0) (Format.double.nearest n.natAbs 1)

def ratio (x : Double) : Nat × Nat :=
  let (significand, exponent) := Format.double.unpack x.magnitude
  scaled 2 significand exponent

end Double

/-- Documents hold no NaN and no infinity. -/
structure FiniteDouble where
  number : Double
  finite : number.isFinite = true
deriving DecidableEq

def Single.widen (x : Single) : Double :=
  if x.isNaN then .ofMagnitude x.isNegative (Format.double.infinity + Nat.pow 2 51)
  else if x.isFinite then
    let (significand, exponent) := Format.single.unpack x.magnitude
    let (num, den) := scaled 2 significand exponent
    .ofMagnitude x.isNegative (Format.double.nearest num den)
  else .ofMagnitude x.isNegative Format.double.infinity

/-- The nearest single; doubles beyond its range become infinite. -/
def Double.narrow (x : Double) : Single :=
  if x.isNaN then .ofMagnitude x.isNegative (Format.single.infinity + Nat.pow 2 22)
  else if x.isFinite then
    .ofMagnitude x.isNegative (Format.single.nearest x.ratio.1 x.ratio.2)
  else .ofMagnitude x.isNegative Format.single.infinity

end UnitOfWork
