import UnitOfWork.Number.Binary

/-! Decimal text of binary floating point numbers: the fewest digits that still read back to the same
number, and the two layouts in which they are written. -/

namespace UnitOfWork

inductive Tie where
  | up
  | even
deriving DecidableEq

/-- `digits · 10 ^ exponent`. -/
structure Decimal where
  digits : Nat
  exponent : Int
deriving DecidableEq

namespace Decimal

/-- The power of ten at or below `num / den`. The logarithm in base two gives it up to one. -/
def order (num den : Nat) : Int :=
  let estimate := ((num.log2 : Int) - den.log2) * 30103 / 100000
  let reaches (power : Int) : Bool := den * Nat.pow 10 power.toNat ≤ num * Nat.pow 10 (-power).toNat
  if reaches (estimate + 1) then estimate + 1
  else if reaches estimate then estimate
  else estimate - 1

/-- Drops zeros at the end; a number below `10 ^ fuel` has at most that many. -/
def trim : Nat → Decimal → Decimal
  | 0, d => d
  | fuel + 1, d => if d.digits ≠ 0 ∧ d.digits % 10 = 0 then trim fuel ⟨d.digits / 10, d.exponent + 1⟩ else d

/-- The numbers that round to a given one: four times the significand lies between `low` and `high`,
in units of `2 ^ unit`; the ends belong to it when the significand is even. -/
structure Interval where
  low : Nat
  middle : Nat
  high : Nat
  unit : Int
  closed : Bool

/-- Below a power of two the neighbour is only half as far away. -/
def Interval.ofMagnitude (format : Format) (magnitude : Nat) : Interval :=
  let (significand, exponent) := format.unpack magnitude
  let narrow := significand = format.binade ∧ format.leastExponent < exponent
  { low := 4 * significand - if narrow then 1 else 2
    middle := 4 * significand
    high := 4 * significand + 2
    unit := exponent - 2
    closed := significand % 2 = 0 }

/-- The decimal nearest to the middle among the two neighbours of `place` decimal digits, if one of
them lies in the interval. -/
def Interval.candidate (interval : Interval) (tie : Tie) (power : Int) : Option Decimal :=
  let (num, den) := scaled 2 1 interval.unit
  let top := num * Nat.pow 10 (-power).toNat
  let bottom := den * Nat.pow 10 power.toNat
  let inside (digits : Nat) : Bool :=
    if interval.closed then interval.low * top ≤ digits * bottom ∧ digits * bottom ≤ interval.high * top
    else interval.low * top < digits * bottom ∧ digits * bottom < interval.high * top
  let middle := interval.middle * top
  let below := middle / bottom
  let gap := 2 * (middle % bottom)
  let upper : Bool :=
    if gap = bottom then tie = .up ∨ below % 2 = 1 else bottom < gap
  match inside below, inside (below + 1) with
  | true, true => some ⟨if upper then below + 1 else below, power⟩
  | true, false => some ⟨below, power⟩
  | false, true => some ⟨below + 1, power⟩
  | false, false => none

/-- The fewest digits that read back to a positive finite magnitude; seventeen always do. -/
def shortest (format : Format) (tie : Tie) (magnitude : Nat) : Decimal :=
  let interval := Interval.ofMagnitude format magnitude
  let (num, den) := scaled 2 interval.middle interval.unit
  let top := order num den
  let found := (List.range 17).findSome? fun (count : Nat) => interval.candidate tie (top - count)
  (found.getD ⟨0, 0⟩).trim 20

def zeros (count : Nat) : String := String.ofList (List.replicate count '0')

/-- All digits, without an exponent: `0.001`, `120`, `1.5`. -/
def positional (d : Decimal) : String :=
  let text := (Nat.toDigits 10 d.digits)
  if 0 ≤ d.exponent then String.ofList text ++ zeros d.exponent.toNat
  else
    let places := (-d.exponent).toNat
    if places < text.length then
      String.ofList (text.take (text.length - places)) ++ "." ++ String.ofList (text.drop (text.length - places))
    else "0." ++ zeros (places - text.length) ++ String.ofList text

/-- One digit before the point and a power of ten with its sign: `1e+16`, `1.5e-7`. -/
def scientific (d : Decimal) : String :=
  let text := Nat.toDigits 10 d.digits
  let power := d.exponent + (text.length - 1 : Nat)
  let rest := text.drop 1
  String.ofList (text.take 1) ++ (if rest.isEmpty then "" else "." ++ String.ofList rest) ++
    (if power < 0 then "e" else "e+") ++ toString power

end Decimal

def Format.plainText (format : Format) (negative : Bool) (magnitude : Nat) : String :=
  if format.infinity < magnitude then "NaN"
  else
    let body :=
      if magnitude = format.infinity then "inf"
      else if magnitude = 0 then "0"
      else (Decimal.shortest format .up magnitude).positional
    if negative then "-" ++ body else body

/-- Column values show all digits and never an exponent; whole numbers have no point. -/
def Single.text (x : Single) : String := Format.single.plainText x.isNegative x.magnitude

def Double.text (x : Double) : String := Format.double.plainText x.isNegative x.magnitude

/-- Document numbers keep a point and at least one place after it, and take an exponent from `10 ^ 16`
on and below `10 ^ -5`. Meant for finite numbers. -/
def Double.documentText (x : Double) : String :=
  let body :=
    if x.magnitude = 0 then "0.0"
    else
      let d := Decimal.shortest .double .even x.magnitude
      let point := d.exponent + (Nat.toDigits 10 d.digits).length
      if -5 < point ∧ point ≤ 16 then
        if 0 ≤ d.exponent then d.positional ++ ".0" else d.positional
      else d.scientific
  if x.isNegative then "-" ++ body else body

end UnitOfWork
