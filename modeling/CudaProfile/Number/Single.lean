import CudaProfile.Number.Rounding
/-!
# Single-precision numbers

Numbers of 24 significant bits in their 32-bit interchange form, and their
decimal texts: the shortest one that reads back, and one with a single decimal
place.
-/

namespace CudaProfile

/-- A single-precision number by its bits. -/
structure Single where
  bits : UInt32
deriving DecidableEq

namespace Single

inductive Value where
  | notANumber
  | infinite (negative : Bool)
  | finite (negative : Bool) (magnitude : Number.Scaled)
deriving DecidableEq

def mantissas : Nat :=
  0x800000

def zero : Single :=
  ⟨0⟩

def ofFraction (num den : Nat) : Single :=
  let s := Number.nearest 24 num den
  if s.mantissa = 0 then zero
  else
    let biased := (s.exponent + 150).toNat
    ⟨UInt32.ofNat (biased * mantissas + (s.mantissa - mantissas))⟩

def ofNat (n : Nat) : Single :=
  ofFraction n 1

def exponentField (x : Single) : Nat :=
  x.bits.toNat / mantissas % 256

def fractionField (x : Single) : Nat :=
  x.bits.toNat % mantissas

def isNegative (x : Single) : Bool :=
  x.bits ≥ 0x80000000

def value (x : Single) : Value :=
  if x.exponentField = 255 then
    if x.fractionField = 0 then .infinite x.isNegative else .notANumber
  else if x.exponentField = 0 then
    .finite x.isNegative ⟨x.fractionField, -149⟩
  else
    .finite x.isNegative
      ⟨x.fractionField + mantissas, (x.exponentField : Int) - 150⟩

/-! ## The shortest decimal that reads back -/

structure Decimal where
  digits : Nat
  exponent : Int
deriving DecidableEq

/-- The numbers that round to a single-precision number: its bounds and the
number itself in units of `2 ^ unit`. The bounds belong to it when its
mantissa is even. -/
structure RoundingInterval where
  below : Nat
  center : Nat
  above : Nat
  unit : Int
  closed : Bool

/-- The numbers that round to a mantissa and exponent. Below a power of two the
neighbour is half as far away as above it. -/
def roundingInterval (s : Number.Scaled) : RoundingInterval :=
  let narrow := s.mantissa = mantissas && s.exponent > -149
  ⟨4 * s.mantissa - (if narrow then 1 else 2), 4 * s.mantissa,
    4 * s.mantissa + 2, s.exponent - 2, s.mantissa % 2 = 0⟩

/-- The nearest multiple of a power of ten among the two next to the center of
an interval that lie in it. -/
def RoundingInterval.multiple? (i : RoundingInterval) (exponent : Int) :
    Option Decimal :=
  let two := if i.unit < 0 then (1, Nat.pow 2 (-i.unit).toNat)
    else (Nat.pow 2 i.unit.toNat, 1)
  let ten := if exponent < 0 then (1, Nat.pow 10 (-exponent).toNat)
    else (Nat.pow 10 exponent.toNat, 1)
  -- Both sides of every comparison are multiplied by both denominators.
  let scale := two.1 * ten.2
  let step := ten.1 * two.2
  let lower := i.center * scale / step
  let inside := fun n : Nat =>
    let at_ := n * step
    if i.closed then i.below * scale ≤ at_ && at_ ≤ i.above * scale
    else i.below * scale < at_ && at_ < i.above * scale
  let lowerHit := lower ≠ 0 && inside lower
  let upperHit := inside (lower + 1)
  let toLower := i.center * scale - lower * step
  let toUpper := (lower + 1) * step - i.center * scale
  if lowerHit && (!upperHit || toLower < toUpper ||
      (toLower = toUpper && lower % 2 = 0)) then
    some ⟨lower, exponent⟩
  else if upperHit then some ⟨lower + 1, exponent⟩
  else none

/-- The first multiple found when the power of ten is lowered step by step. -/
def RoundingInterval.firstMultiple (i : RoundingInterval) :
    Nat → Int → Decimal
  | 0, exponent => ⟨0, exponent⟩
  | steps + 1, exponent =>
      match i.multiple? exponent with
      | some decimal => decimal
      | none => i.firstMultiple steps (exponent - 1)

def shortest (s : Number.Scaled) : Decimal :=
  (roundingInterval s).firstMultiple 100 39

/-- How decimals are written: with a point only as long as the exponent of the
leading digit lies between two bounds. Other exponents carry a sign. -/
structure DecimalFormat where
  leastPlain : Int
  greatestPlain : Int

def jsonFormat : DecimalFormat :=
  ⟨-6, 12⟩

def DecimalFormat.render (format : DecimalFormat) (d : Decimal) : String :=
  let digits := toString d.digits
  let count := digits.length
  let leading : Int := d.exponent + count - 1
  if format.leastPlain ≤ leading && leading ≤ format.greatestPlain then
    if d.exponent ≥ 0 then
      digits ++ String.ofList (List.replicate d.exponent.toNat '0') ++ ".0"
    else if leading ≥ 0 then
      let whole := digits.toList.take (leading.toNat + 1)
      let rest := digits.toList.drop (leading.toNat + 1)
      String.ofList whole ++ "." ++ String.ofList rest
    else
      "0." ++ String.ofList (List.replicate (-leading - 1).toNat '0') ++ digits
  else
    let rest := digits.toList.drop 1
    let fraction := if rest.isEmpty then "" else "." ++ String.ofList rest
    let sign := if leading < 0 then "-" else "+"
    String.ofList (digits.toList.take 1) ++ fraction ++ "e" ++ sign ++
      toString leading.natAbs

def shortestText? (x : Single) : Option String :=
  match x.value with
  | .finite negative s =>
      let sign := if negative then "-" else ""
      if s.mantissa = 0 then some (sign ++ "0.0")
      else some (sign ++ jsonFormat.render (shortest s))
  | _ => none

/-! ## One decimal place -/

/-- The text with one decimal place; a tie goes to the even digit. -/
def oneDecimalText (x : Single) : String :=
  match x.value with
  | .notANumber => "NaN"
  | .infinite negative => if negative then "-inf" else "inf"
  | .finite negative s =>
      let (n, d) := Number.scaleDown (10 * s.mantissa) 1 (-s.exponent)
      let tenths := Number.divToEven n d
      let sign := if negative then "-" else ""
      sign ++ toString (tenths / 10) ++ "." ++ toString (tenths % 10)

end Single
end CudaProfile
