import UnitOfWork.Json.Draft
import UnitOfWork.Number.Hex

/-! Reading documents. A text that breaks the grammar anywhere is refused as a whole; a part that follows it
and stands for nothing is left as a hole. -/

namespace UnitOfWork

namespace Draft

def isBlank (c : Char) : Bool := c = ' ' || c = '\n' || c = '\t' || c = '\r'

def skipBlank (chars : List Char) : List Char := chars.dropWhile isBlank

inductive Symbol where
  | char (c : Char)
  | unit (code : Nat)

def readSymbols : List Char → Option (List Symbol × List Char)
  | [] => none
  | '"' :: rest => some ([], rest)
  | '\\' :: 'u' :: a :: b :: c :: d :: rest => do
    let code ← Hex.number [a, b, c, d]
    let (symbols, rest) ← readSymbols rest
    return (.unit code :: symbols, rest)
  | '\\' :: e :: rest => do
    let c ← match e with
      | '"' => some '"'
      | '\\' => some '\\'
      | '/' => some '/'
      | 'b' => some (Char.ofNat 8)
      | 'f' => some (Char.ofNat 12)
      | 'n' => some '\n'
      | 'r' => some '\r'
      | 't' => some '\t'
      | _ => none
    let (symbols, rest) ← readSymbols rest
    return (.char c :: symbols, rest)
  | c :: rest => do
    if c.toNat < 32 ∨ c = '\\' then none
    let (symbols, rest) ← readSymbols rest
    return (.char c :: symbols, rest)

/-- Joins surrogate pairs; a surrogate on its own stands for no character. -/
def joinUnits : List Symbol → Option (List Char)
  | [] => some []
  | .char c :: rest => return c :: (← joinUnits rest)
  | .unit high :: .unit low :: rest =>
    if 0xD800 ≤ high ∧ high < 0xDC00 then
      if 0xDC00 ≤ low ∧ low < 0xE000 then
        return Char.ofNat (0x10000 + (high - 0xD800) * 0x400 + (low - 0xDC00)) :: (← joinUnits rest)
      else none
    else if 0xDC00 ≤ high ∧ high < 0xE000 then none
    else return Char.ofNat high :: (← joinUnits (.unit low :: rest))
  | .unit code :: rest =>
    if 0xD800 ≤ code ∧ code < 0xE000 then none
    else return Char.ofNat code :: (← joinUnits rest)

def readText (chars : List Char) : Option (Option String × List Char) := do
  let (symbols, rest) ← readSymbols chars
  return (String.ofList <$> joinUnits symbols, rest)

/-- Whole numbers are kept exactly between these bounds and become fractional numbers beyond them. -/
def largestInteger : Nat := Nat.pow 2 64 - 1

/-- Appends digits while the significand stays within 64 bits; the rest are only counted. -/
def significand : Nat → List Char → Nat × Nat
  | held, [] => (held, 0)
  | held, c :: rest =>
    let next := held * 10 + (c.toNat - '0'.toNat)
    if next ≤ largestInteger then significand next rest else (held, rest.length + 1)

/-- The significand is rounded to a double first and then scaled by a power of ten that is itself
rounded to a double; powers beyond the largest are applied in steps. `none` when the number is too
large. -/
def scale (x : Double) (exponent : Int) : Option Double :=
  let power (n : Nat) : Nat × Nat := (Double.ofNat (Nat.pow 10 n)).ratio
  if x.magnitude = 0 then some x
  else if 0 ≤ exponent then
    if exponent ≤ 308 then
      let (num, den) := x.ratio
      let (tens, ones) := power exponent.toNat
      let result := Double.ofMagnitude false (Format.double.nearest (num * tens) (den * ones))
      if result.isFinite then some result else none
    else none
  else
    let step := min 308 (-exponent).toNat
    let (num, den) := x.ratio
    let (tens, ones) := power step
    scale (Double.ofMagnitude false (Format.double.nearest (num * ones) (den * tens))) (exponent + step)
termination_by exponent.natAbs
decreasing_by omega

def ofParts (negative : Bool) (significand : Nat) (exponent : Int) : Draft :=
  match scale (.ofNat significand) exponent with
  | some x =>
    let signed := Double.ofMagnitude negative x.magnitude
    if finite : signed.isFinite = true then .real ⟨signed, finite⟩ else .hole
  | none => .hole

def readExponent (exponent : Int) : List Char → Option (Int × List Char)
  | 'e' :: rest | 'E' :: rest =>
    let (negative, rest) := match rest with
      | '+' :: rest => (false, rest)
      | '-' :: rest => (true, rest)
      | rest => (false, rest)
    let digits := rest.takeWhile Char.isDigit
    if digits.isEmpty then none
    else
      let written : Int := digits.foldl (fun n c => n * 10 + (c.toNat - '0'.toNat)) 0
      some (if negative then exponent - written else exponent + written, rest.dropWhile Char.isDigit)
  | rest => some (exponent, rest)

def readNumber (chars : List Char) : Option (Draft × List Char) := do
  let (negative, chars) := match chars with
    | '-' :: rest => (true, rest)
    | chars => (false, chars)
  let digits := chars.takeWhile Char.isDigit
  let rest := chars.dropWhile Char.isDigit
  if digits.isEmpty ∨ (digits.head? = some '0' ∧ 1 < digits.length) then none
  let (held, dropped) := significand 0 digits
  match rest with
  | '.' :: rest =>
    let places := rest.takeWhile Char.isDigit
    if places.isEmpty then none
    let (held, ignored) := significand held places
    let (exponent, rest) ←
      readExponent ((dropped : Int) - (places.length - ignored : Nat)) (rest.dropWhile Char.isDigit)
    return (ofParts negative held exponent, rest)
  | 'e' :: _ | 'E' :: _ =>
    let (exponent, rest) ← readExponent dropped rest
    return (ofParts negative held exponent, rest)
  | rest =>
    if 0 < dropped then return (ofParts negative held dropped, rest)
    else if !negative then return (.integer held, rest)
    else if held = 0 ∨ Nat.pow 2 63 < held then return (ofParts true held 0, rest)
    else return (.integer (-held), rest)

/-- Arrays and objects nested this deep, or deeper, stand for nothing. -/
def depthLimit : Nat := 128

def within (depth : Nat) (whole : Draft) : Draft := if depth ≤ 1 then .hole else whole

def ofNamed (members : List (Option String × Draft)) : Draft :=
  match members.mapM fun (name, value) => return (← name, value) with
  | some members => .object members
  | none => .hole

mutual

/-- Each call has one unit of fuel less than its caller; a character pays for at most two calls. -/
def readValue : Nat → Nat → List Char → Option (Draft × List Char)
  | 0, _, _ => none
  | fuel + 1, depth, chars =>
    match skipBlank chars with
    | 'n' :: 'u' :: 'l' :: 'l' :: rest => some (.null, rest)
    | 't' :: 'r' :: 'u' :: 'e' :: rest => some (.bool true, rest)
    | 'f' :: 'a' :: 'l' :: 's' :: 'e' :: rest => some (.bool false, rest)
    | '"' :: rest => do
      let (value, rest) ← readText rest
      return (value.elim .hole .text, rest)
    | '[' :: rest =>
      match skipBlank rest with
      | ']' :: rest => some (within depth (.array []), rest)
      | rest => do
        let (items, rest) ← readItems fuel (depth - 1) rest
        return (within depth (.array items), rest)
    | '\x7b' :: rest =>
      match skipBlank rest with
      | '\x7d' :: rest => some (within depth (.object []), rest)
      | rest => do
        let (members, rest) ← readMembers fuel (depth - 1) rest
        return (within depth (ofNamed members), rest)
    | rest => readNumber rest

def readItems : Nat → Nat → List Char → Option (List Draft × List Char)
  | 0, _, _ => none
  | fuel + 1, depth, chars => do
    let (item, rest) ← readValue fuel depth chars
    match skipBlank rest with
    | ',' :: rest =>
      let (items, rest) ← readItems fuel depth rest
      return (item :: items, rest)
    | ']' :: rest => return ([item], rest)
    | _ => none

def readMembers : Nat → Nat → List Char → Option (List (Option String × Draft) × List Char)
  | 0, _, _ => none
  | fuel + 1, depth, chars => do
    match skipBlank chars with
    | '"' :: rest =>
      let (name, rest) ← readText rest
      match skipBlank rest with
      | ':' :: rest =>
        let (value, rest) ← readValue fuel depth rest
        match skipBlank rest with
        | ',' :: rest =>
          let (members, rest) ← readMembers fuel depth rest
          return ((name, value) :: members, rest)
        | '\x7d' :: rest => return ([(name, value)], rest)
        | _ => none
      | _ => none
    | _ => none

end

def read? (text : String) : Option Draft := do
  let chars := text.toList
  let (draft, rest) ← readValue (2 * chars.length + 2) depthLimit chars
  if (skipBlank rest).isEmpty then some draft else none

end Draft

/-- The document written in `text`, which stands for nothing as a whole if any part of it does. -/
def Json.read? (text : String) : Option Json := do (← Draft.read? text).json?

end UnitOfWork
